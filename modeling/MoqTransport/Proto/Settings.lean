import MoqTransport.Lib.Hashed
import MoqTransport.Proto.Frame

/-!
The settings that both sides send first. They are in a hash map, so they are
written in any order, and are read back but for the numbers that stand for
nothing (`read_encode`).
-/

namespace MoqTransport.Proto

open Streaming

structure Setting where
  val : VarInt
deriving DecidableEq

namespace Setting

def isGrease (id : Setting) : Bool := Proto.isGrease id.val.val

def decode : Decoder VarIntUnexpectedEnd Setting := Setting.mk <$> VarInt.decode

def encode (id : Setting) (buf : Bytes) : Bytes := VarInt.encode id.val buf

-- Both of these are required for WebTransport
def enableConnectProtocol : Setting := ⟨VarInt.fromU32 0x8⟩
def enableDatagram : Setting := ⟨VarInt.fromU32 0x33⟩
def enableDatagramDeprecated : Setting := ⟨VarInt.fromU32 0xFFD277⟩ -- still used by Chrome

-- Removed in draft 06
def webtransportEnableDeprecated : Setting := ⟨VarInt.fromU32 0x2b603742⟩
def webtransportMaxSessionsDeprecated : Setting := ⟨VarInt.fromU32 0x2b603743⟩

-- New way to enable WebTransport
def webtransportMaxSessions : Setting := ⟨VarInt.fromU32 0xc671706a⟩

end Setting

inductive SettingsError where
  | unexpectedEnd
  | unexpectedStreamType (typ : StreamUni)
  | unexpectedFrame (frame : Frame)
  | invalidSize
  | io (err : String)
deriving DecidableEq

/-- A map of settings to values. -/
structure Settings where
  map : Hashed.Map Setting VarInt
deriving DecidableEq

namespace Settings

def default : Settings := ⟨∅⟩

def get (settings : Settings) (id : Setting) : Option VarInt := settings.map.lookup id

def len (settings : Settings) : Nat := settings.map.keys.card

def insert (settings : Settings) (id : Setting) (value : VarInt) : Settings :=
  ⟨settings.map.insert id value⟩

/-- `while data.has_remaining()`; every setting takes up a byte. -/
def decodeEntries : Nat → Settings → Decoder SettingsError Settings
  | 0, _ => abort
  | fuel + 1, settings => do
      if (← remaining) = 0 then pure settings
      else do
        -- These return a different error because retrying won't help.
        let id ← mapErr (fun _ => .invalidSize) Setting.decode
        let value ← mapErr (fun _ => .invalidSize) VarInt.decode
        -- Only add if it is not grease
        decodeEntries fuel (if id.isGrease then settings else settings.insert id value)

def decodePayload : Decoder SettingsError Settings := do
  let size ← remaining
  decodeEntries (size + 1) default

def decode : Decoder SettingsError Settings := do
  let typ ← mapErr (fun _ => .unexpectedEnd) StreamUni.decode
  if typ ≠ .control then fail (.unexpectedStreamType typ)
  let (typ, limit) ← mapErr (fun _ => .unexpectedEnd) Frame.read
  if typ ≠ .settings then fail (.unexpectedFrame typ)
  take limit decodePayload

/-- The stream ends with `stop`: `UnexpectedEnd`, or an `Io` of its own. -/
def read (stop : SettingsError) (pieces : List Bytes) :
    Except (Fault SettingsError) Settings × List Bytes :=
  rerun (fun e => e == .unexpectedEnd) stop decode [] pieces

def encodeEntry (tmp : Bytes) (entry : Setting × VarInt) : Bytes :=
  VarInt.encode entry.2 (entry.1.encode tmp)

def encode (ord : Hashed.Order Setting VarInt) (settings : Settings) (buf : Bytes) : Bytes :=
  let buf := StreamUni.control.encode buf
  let buf := Frame.settings.encode buf
  let tmp := (ord.list settings.map).foldl encodeEntry []
  VarInt.encode (VarInt.fromU32 tmp.length) buf ++ tmp

def enableWebtransport (settings : Settings) (maxSessions : Nat) : Settings :=
  let max := VarInt.fromU32 maxSessions
  ((((((settings.insert .enableConnectProtocol (VarInt.fromU32 1)).insert
    .enableDatagram (VarInt.fromU32 1)).insert
    .enableDatagramDeprecated (VarInt.fromU32 1)).insert
    .webtransportMaxSessions max).insert
    -- TODO remove when 07 is in the wild
    .webtransportMaxSessionsDeprecated max).insert
    .webtransportEnableDeprecated (VarInt.fromU32 1))

/-- The maximum number of sessions supported. -/
def supportsWebtransport (settings : Settings) : Nat :=
  let datagram := ((settings.get .enableDatagram).or
    (settings.get .enableDatagramDeprecated)).map Coding.VarInt.val
  if datagram ≠ some 1 then 0
  else
    -- Both would send ENABLE=1 and the server would send MAX_SESSIONS=N to limit the sessions.
    -- Now both just send MAX_SESSIONS, and a non-zero value means WebTransport is enabled.
    match settings.get .webtransportMaxSessions with
    | some max => max.val
    | none =>
        let enabled := (settings.get .webtransportEnableDeprecated).map Coding.VarInt.val
        if enabled ≠ some 1 then 0
        else
          -- Only the server is allowed to set this one, so if it's None we assume it's 1.
          ((settings.get .webtransportMaxSessionsDeprecated).map Coding.VarInt.val).getD 1

/-! What is read. -/

abbrev Entry := Setting × VarInt

def kept (entries : List Entry) : List Entry := entries.filter fun entry => !entry.1.isGrease

/-- Settings one after the other, each number in any form. -/
inductive Entries : List Entry → Bytes → Prop where
  | nil : Entries [] []
  | cons {id : Setting} {value : VarInt} {entries : List Entry} {front back bs : Bytes}
      (hid : VarInt.Spells id.val front) (hvalue : VarInt.Spells value back)
      (hentries : Entries entries bs) : Entries ((id, value) :: entries) (front ++ (back ++ bs))

/-- The type of the stream, frames to ignore, and the one with the settings. -/
inductive Wire (entries : List Entry) : Bytes → Prop where
  | mk {typ grease payload frame : Bytes} (htyp : VarInt.Spells StreamUni.control.val typ)
      (hgrease : Frame.Grease grease) (hentries : Entries entries payload)
      (hframe : Frame.Wire .settings payload frame) : Wire entries (typ ++ (grease ++ frame))

variable {entries : List Entry} {bs rest : Bytes}

theorem decodeEntries_entries (h : Entries entries bs) {fuel : Nat} (hfuel : bs.length < fuel)
    (settings : Settings) : decodeEntries fuel settings bs =
      .ok (⟨Hashed.insertAll settings.map (kept entries)⟩, []) := by
  induction h generalizing fuel settings with
  | nil =>
      obtain ⟨fuel, rfl⟩ := Nat.exists_eq_succ_of_ne_zero (Nat.ne_zero_of_lt hfuel)
      rfl
  | @cons id value entries front back bs hid hvalue _ ih =>
      obtain ⟨fuel, rfl⟩ := Nat.exists_eq_succ_of_ne_zero (Nat.ne_zero_of_lt hfuel)
      have hpos := List.length_pos_iff.mpr hid.ne_nil
      have hsome : ¬ (front ++ (back ++ bs)).length = 0 := by
        rw [List.length_append]
        omega
      have hreads : Reads Setting.decode front id := hid.reads.map Setting.mk
      rw [decodeEntries, bind_ok (remaining_eq _)]
      simp only [if_neg hsome]
      rw [bind_ok (hreads.mapErr _ _), bind_ok (hvalue.reads.mapErr _ _)]
      simp only [List.length_append] at hfuel
      rw [ih (by omega)]
      unfold kept
      rw [List.filter_cons]
      cases id.isGrease <;> rfl

theorem decodePayload_entries (h : Entries entries bs) :
    decodePayload bs = .ok (⟨Hashed.ofPairs (kept entries)⟩, []) := by
  rw [decodePayload, bind_ok (remaining_eq bs)]
  exact decodeEntries_entries h (Nat.lt_succ_self _) default

theorem reads_wire (h : Wire entries bs) : Reads decode bs ⟨Hashed.ofPairs (kept entries)⟩ := by
  obtain ⟨htyp, hgrease, hentries, hframe⟩ := h
  have hstream : Reads StreamUni.decode _ StreamUni.control := htyp.reads.map StreamUni.mk
  refine Reads.bind (hstream.mapErr _) ?_
  simp only [ne_eq, not_true_eq_false, if_false]
  exact Frame.reads_payload hgrease hframe (by decide) (decodePayload_entries hentries)

theorem retries_wire (h : Wire entries bs) :
    Retries (fun e => e == SettingsError.unexpectedEnd) decode bs := by
  obtain ⟨htyp, hgrease, -, hframe⟩ := h
  have hstream : Reads StreamUni.decode _ StreamUni.control := htyp.reads.map StreamUni.mk
  refine Retries.bind (hstream.mapErr _)
    ((htyp.retries.map StreamUni.mk).mapErr fun _ _ => rfl) ?_
  simp only [ne_eq, not_true_eq_false, if_false]
  exact Frame.retries_payload (fun _ => rfl) hgrease hframe

/-! What is written. -/

theorem exists_entries (entries : List Entry) :
    ∃ bs, Entries entries bs ∧ bs.length ≤ 16 * entries.length ∧
      ∀ tmp, entries.foldl encodeEntry tmp = tmp ++ bs := by
  induction entries with
  | nil => exact ⟨[], .nil, Nat.le_refl _, fun tmp => (List.append_nil tmp).symm⟩
  | cons entry entries ih =>
      obtain ⟨id, value⟩ := entry
      obtain ⟨bs, hentries, hlength, hfold⟩ := ih
      have hid := Coding.VarInt.wire_length_le id.val.val
      have hvalue := Coding.VarInt.wire_length_le value.val
      refine ⟨_, .cons (VarInt.spells_wire _) (VarInt.spells_wire _) hentries, ?_, fun tmp => ?_⟩
      · simp only [List.length_append, List.length_cons]
        omega
      · rw [List.foldl_cons, hfold, encodeEntry, Setting.encode, VarInt.encode_eq,
          VarInt.encode_eq, List.append_assoc, List.append_assoc]

theorem length_list (ord : Hashed.Order Setting VarInt) (settings : Settings) :
    (ord.list settings.map).length = settings.len := by
  have hcard : settings.len = settings.map.entries.card := Multiset.card_map _ _
  rw [hcard, ← ord.entries settings.map, Multiset.coe_card, List.length_map]

theorem wire_encode (ord : Hashed.Order Setting VarInt) {settings : Settings}
    (h : settings.len < 2 ^ 28) : Wire (ord.list settings.map) (encode ord settings []) := by
  obtain ⟨tmp, hentries, hlength, hfold⟩ := exists_entries (ord.list settings.map)
  rw [length_list] at hlength
  have hframe := Frame.wire_encode .settings (by omega : tmp.length < 2 ^ 32)
  have hwire := Wire.mk (VarInt.spells_wire StreamUni.control.val) .nil hentries hframe
  have hencode : encode ord settings [] = Coding.VarInt.wire StreamUni.control.val.val ++
      ([] ++ (VarInt.encode (VarInt.fromU32 tmp.length) (Frame.settings.encode []) ++ tmp)) := by
    simp only [encode, StreamUni.encode, Frame.encode, hfold, VarInt.encode_eq, List.nil_append,
      List.append_assoc]
  rwa [hencode]

theorem get_kept (ord : Hashed.Order Setting VarInt) (settings : Settings) (id : Setting) :
    get ⟨Hashed.ofPairs (kept (ord.list settings.map))⟩ id =
      if id.isGrease then none else settings.get id := by
  have hnodup : ((kept (ord.list settings.map)).map Prod.fst).Nodup :=
    (ord.nodup_keys settings.map).sublist (List.filter_sublist.map Prod.fst)
  refine Option.ext fun value => ?_
  rw [get, Hashed.lookup_ofPairs hnodup, kept, List.mem_filter, ord.mem_list_iff,
    ← Finmap.mem_lookup_iff]
  cases id.isGrease
  · simp [get]
  · simp

/-! What one side enables, the other side sees. -/

theorem supportsWebtransport_congr {settings settings' : Settings}
    (h : ∀ id, id.isGrease = false → settings.get id = settings'.get id) :
    settings.supportsWebtransport = settings'.supportsWebtransport := by
  unfold supportsWebtransport
  rw [h .enableDatagram (by decide), h .enableDatagramDeprecated (by decide),
    h .webtransportMaxSessions (by decide), h .webtransportEnableDeprecated (by decide),
    h .webtransportMaxSessionsDeprecated (by decide)]

@[simp]
theorem get_insert_self (settings : Settings) (id : Setting) (value : VarInt) :
    (settings.insert id value).get id = some value :=
  Finmap.lookup_insert _

theorem get_insert_of_ne (settings : Settings) {id id' : Setting} (value : VarInt)
    (h : id ≠ id') : (settings.insert id' value).get id = settings.get id :=
  Finmap.lookup_insert_of_ne _ h

theorem supports_enable (settings : Settings) {maxSessions : Nat} (h : maxSessions < 2 ^ 32) :
    (settings.enableWebtransport maxSessions).supportsWebtransport = maxSessions := by
  have hdatagram : (settings.enableWebtransport maxSessions).get .enableDatagram =
      some (VarInt.fromU32 1) := by
    rw [enableWebtransport, get_insert_of_ne _ _ (by decide), get_insert_of_ne _ _ (by decide),
      get_insert_of_ne _ _ (by decide), get_insert_of_ne _ _ (by decide), get_insert_self]
  have hmax : (settings.enableWebtransport maxSessions).get .webtransportMaxSessions =
      some (VarInt.fromU32 maxSessions) := by
    rw [enableWebtransport, get_insert_of_ne _ _ (by decide), get_insert_of_ne _ _ (by decide),
      get_insert_self]
  rw [supportsWebtransport, hdatagram, hmax]
  exact Nat.mod_eq_of_lt h

theorem len_insert_le (settings : Settings) (id : Setting) (value : VarInt) :
    (settings.insert id value).len ≤ settings.len + 1 := by
  have hkeys : (settings.insert id value).map.keys ⊆ Insert.insert id settings.map.keys := by
    intro id' hid'
    rw [Finmap.mem_keys, insert, Finmap.mem_insert] at hid'
    rwa [Finset.mem_insert, Finmap.mem_keys]
  exact (Finset.card_le_card hkeys).trans (Finset.card_insert_le _ _)

theorem len_enable_le (settings : Settings) (maxSessions : Nat) :
    (settings.enableWebtransport maxSessions).len ≤ settings.len + 6 := by
  unfold enableWebtransport
  repeat refine (len_insert_le _ _ _).trans (Nat.succ_le_succ ?_)
  exact Nat.le_refl _

theorem Wire.ne_nil (h : Wire entries bs) : bs ≠ [] := by
  obtain ⟨htyp, -, -, -⟩ := h
  exact List.append_ne_nil_of_left_ne_nil htyp.ne_nil _

/-- Settings are read back but for the ones that stand for nothing, as soon as
the last byte of them is there, however the stream is cut; the reader supports
as many sessions as the writer has enabled. A stream that ends before that byte
gives the error of its end. -/
theorem read_encode (ord : Hashed.Order Setting VarInt) (settings : Settings)
    (h : settings.len < 2 ^ 28) (stop : SettingsError) :
    (∀ pieces rest, pieces.flatten = encode ord settings [] ++ rest →
      ∃ settings' after, read stop pieces = (.ok settings', after) ∧
        Reaches (encode ord settings []).length pieces after ∧
        (∀ id, settings'.get id = if id.isGrease then none else settings.get id) ∧
        ∀ (before : Settings) maxSessions, settings = before.enableWebtransport maxSessions →
          maxSessions < 2 ^ 32 → settings'.supportsWebtransport = maxSessions) ∧
    ∀ pieces back, pieces.flatten ++ back = encode ord settings [] → back ≠ [] →
      read stop pieces = (.error (.err stop), []) := by
  have hwire := wire_encode ord h
  constructor
  · intro pieces rest hpieces
    obtain ⟨after, hafter, hread⟩ := rerun_pieces (reads_wire hwire).results (retries_wire hwire)
      (fun e he => by cases he) hpieces hwire.ne_nil
    have hget := get_kept ord settings
    refine ⟨_, after, hread, hafter, hget, ?_⟩
    rintro before maxSessions rfl hmax
    refine (supportsWebtransport_congr fun id hid => ?_).trans (supports_enable before hmax)
    rw [hget, if_neg (by simp [hid])]
  · intro pieces back hpieces hback
    exact rerun_cut (retries_wire hwire) hpieces hback

/-- A server that takes seven sessions, with a setting that stands for nothing. -/
def sevenSessions : Settings :=
  (default.insert ⟨VarInt.fromU32 0x21⟩ (VarInt.fromU32 5)).enableWebtransport 7

theorem read_encode_enabled :
    ∃ settings' after,
      read .unexpectedEnd [(encode Inhabited.default sevenSessions []).take 3,
        (encode Inhabited.default sevenSessions []).drop 3] = (.ok settings', after) ∧
      settings'.get ⟨VarInt.fromU32 0x21⟩ = none ∧ settings'.supportsWebtransport = 7 := by
  have hlen : sevenSessions.len < 2 ^ 28 := by
    have hgrease := len_insert_le default ⟨VarInt.fromU32 0x21⟩ (VarInt.fromU32 5)
    have hall := len_enable_le (default.insert ⟨VarInt.fromU32 0x21⟩ (VarInt.fromU32 5)) 7
    have hnone : default.len = 0 := rfl
    rw [sevenSessions]
    omega
  have hpieces : [(encode Inhabited.default sevenSessions []).take 3,
      (encode Inhabited.default sevenSessions []).drop 3].flatten =
        encode Inhabited.default sevenSessions [] ++ [] := by
    rw [List.flatten_cons, List.flatten_singleton, List.take_append_drop, List.append_nil]
  obtain ⟨settings', after, hread, -, hget, hsupports⟩ :=
    (read_encode Inhabited.default sevenSessions hlen .unexpectedEnd).1 _ _ hpieces
  refine ⟨settings', after, hread, ?_, hsupports _ 7 rfl (by decide)⟩
  rw [hget, if_pos (by decide)]

end Settings

end MoqTransport.Proto
