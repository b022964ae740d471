import Mathlib.Algebra.Order.BigOperators.Group.List
import MoqTransport.Coding.Fields

/-!
The SETUP messages that open a session. They are framed like control messages
but are not among them. The role of an endpoint travels as parameter 0: the
encoder stores it in a copy of the map, the decoder takes it out again, so a
map that holds that key, or the refused key 1, is not carried.
-/

namespace MoqTransport.Setup

open Streaming Coding

/-- Indicates the endpoint is a publisher, subscriber, or both. -/
inductive Role where
  | publisher
  | subscriber
  | both
deriving DecidableEq

namespace Role

def code : Role → Nat
  | .publisher => 0x1
  | .subscriber => 0x2
  | .both => 0x3

def decode : Decode Role := do
  let v ← U64.decode
  match v with
  | 0x1 => pure .publisher
  | 0x2 => pure .subscriber
  | 0x3 => pure .both
  | _ => fail (.invalidRole v)

def encode (role : Role) : Encode := U64.encode role.code

def wire (role : Role) : Bytes := VarInt.wire role.code

theorem code_fits (role : Role) : fitsVarInt role.code := by
  cases role <;> decide

theorem emits_encode (role : Role) : Emits role.encode True role.wire :=
  (U64.emits_encode role.code).congr (iff_true_intro role.code_fits) rfl

theorem transfers_decode (role : Role) : Transfers decode role.wire role := by
  refine (U64.transfers_decode role.code_fits).bind_nil ?_
  cases role <;> exact Transfers.pure _

theorem delimits_decode : Delimits decode := by
  apply U64.delimits_decode.bind
  intro v
  split
  all_goals first
    | exact Delimits.pure _
    | exact Delimits.fail _

end Role

/-- A version number negotiated during the setup. -/
structure Version where
  val : Nat
deriving DecidableEq

namespace Version

def draft07 : Version := ⟨0xff000007⟩

def decode : Decode Version := Version.mk <$> U64.decode

def encode (v : Version) : Encode := U64.encode v.val

def wire (v : Version) : Bytes := VarInt.wire v.val

theorem emits_encode (v : Version) : Emits v.encode (fitsVarInt v.val) v.wire :=
  U64.emits_encode v.val

theorem transfers_decode {v : Version} (h : fitsVarInt v.val) : Transfers decode v.wire v :=
  (U64.transfers_decode h).map Version.mk

theorem delimits_decode : Delimits decode := U64.delimits_decode.map _

theorem shrinks_decode : Shrinks decode 1 := U64.shrinks_decode.map _

end Version

/-- A list of versions in arbitrary order. -/
structure Versions where
  list : List Version
deriving DecidableEq

namespace Versions

/-- One round of the decoding loop. -/
def decodeVersion (vs : List Version) : Decode (List Version) := do
  let v ← Version.decode
  pure (vs ++ [v])

def decode : Decode Versions := do
  let count ← U64.decode
  let vs ← iterate decodeVersion count []
  pure ⟨vs⟩

def encode (versions : Versions) : Encode := do
  Usize.encode versions.list.length
  each Version.encode versions.list

def Ok (versions : Versions) : Prop :=
  fitsVarInt versions.list.length ∧ ∀ v ∈ versions.list, fitsVarInt v.val

def wire (versions : Versions) : Bytes :=
  VarInt.wire versions.list.length ++ versions.list.flatMap Version.wire

theorem emits_encode (versions : Versions) : Emits versions.encode versions.Ok versions.wire :=
  (U64.emits_encode _).bind (Emits.each versions.list Version.emits_encode)

theorem transfers_decode {versions : Versions} (h : versions.Ok) :
    Transfers decode versions.wire versions := by
  have hloop := Transfers.iterate decodeVersion Version.wire (fun vs v => vs ++ [v])
    versions.list [] (by
      intro done v rest hsplit
      have hv : fitsVarInt v.val := h.2 v (by simp [hsplit])
      exact (Version.transfers_decode hv).bind_pure _)
  rw [Tuple.foldl_push, List.nil_append] at hloop
  refine (U64.transfers_decode h.1).bind ?_
  exact hloop.bind_pure Versions.mk

theorem delimits_decodeVersion (vs : List Version) : Delimits (decodeVersion vs) :=
  Version.delimits_decode.bind fun _ => Delimits.pure _

theorem shrinks_decodeVersion (vs : List Version) : Shrinks (decodeVersion vs) 1 :=
  Version.shrinks_decode.bind fun _ => Shrinks.pure _

theorem delimits_decode : Delimits decode := by
  apply U64.delimits_decode.bind
  intro count
  apply (Delimits.iterate delimits_decodeVersion count []).bind
  intro vs
  exact Delimits.pure _

end Versions

/-- The type, the length and what stands in front of the parameters. -/
def decodeHeader {α : Type} (typ : Nat) (body : Decode α) : Decode α := do
  let t ← U64.decode
  if t ≠ typ then
    fail (.invalidMessage t)
  else do
    -- The length of the message is not checked.
    let _len ← U64.decode
    body

/-- Take the role out of the parameters, and refuse the PATH parameter. -/
def takeRole (params : Params) : Decode (Role × Params) := fun r =>
  match Params.get Role.decode params 0 with
  | .ok (some role, params) =>
      if Params.has params 1 then .error (.err .invalidParameter) else .ok ((role, params), r)
  | .ok (none, _) => .error (.err .missingParameter)
  | .error fault => .error fault

/-- A setup message of type `typ`, with `body` in front of its parameters. -/
def decodeSetup {α β : Type} (typ : Nat) (body : Decode α) (mk : α → Role → Params → β) :
    Decode β := do
  let x ← decodeHeader typ body
  let params ← Params.decode
  let found ← takeRole params
  pure (mk x found.1 found.2)

theorem delimits_header {α : Type} (typ : Nat) {body : Decode α} (hbody : Delimits body) :
    Delimits (decodeHeader typ body) := by
  apply U64.delimits_decode.bind
  intro t
  split
  · exact Delimits.fail _
  · exact U64.delimits_decode.bind fun _ => hbody

/-- Only the parameters decide about the role. -/
theorem takeRole_eq_ok {params : Params} {r rest : Bytes} {found : Role × Params}
    (h : takeRole params r = .ok (found, rest)) : rest = r ∧ Reads (takeRole params) [] found := by
  unfold takeRole at h
  split at h
  · next role params' hget =>
      split at h
      · cases h
      · next hpath =>
          cases h
          refine ⟨rfl, ?_⟩
          intro after
          simp only [takeRole, hget, if_neg hpath, List.nil_append]
  · cases h
  · cases h

theorem delimits_takeRole (params : Params) : Delimits (takeRole params) := by
  constructor
  · intro r h
    have hget : Params.get Role.decode params 0 ≠ .error .panic := by
      unfold Params.get
      split
      · next value _ =>
          split
          · exact nofun
          · next fault herr =>
              intro hpanic
              cases hpanic
              exact Role.delimits_decode.total value herr
      · exact nofun
    unfold takeRole at h
    split at h
    · split at h
      · cases h
      · cases h
    · cases h
    · next fault herr =>
        cases h
        exact hget herr
  · intro r found rest h
    obtain ⟨rfl, hreads⟩ := takeRole_eq_ok h
    exact ⟨[], rfl, hreads⟩

theorem delimits_setup {α β : Type} (typ : Nat) {body : Decode α} (hbody : Delimits body)
    (mk : α → Role → Params → β) : Delimits (decodeSetup typ body mk) := by
  apply (delimits_header typ hbody).bind
  intro x
  apply Params.delimits_decode.bind
  intro params
  apply (delimits_takeRole params).bind
  intro found
  exact Delimits.pure _

/-- Append to a `Vec` of its own and unwrap. -/
def unwrap (e : Encode) (buf : BufMut) : Encoder EncodeError BufMut := fun w =>
  match e buf with
  | .ok ((), buf) => .ok (buf, w)
  | .error _ => .error .panic

/-- Store the role in a copy of the parameters. -/
def storeRole (params : Params) (role : Role) : Encoder EncodeError Params := fun w =>
  match params.set 0 role.encode with
  | .ok params => .ok (params, w)
  | .error fault => .error fault

def encodeSetup (ord : IterOrder) (typ : Nat) (body : Encode) (role : Role) (params : Params) :
    Encode := do
  U64.encode typ
  let buf ← unwrap body vec
  let params ← storeRole params role
  let buf ← unwrap (Params.encode ord params) buf
  U64.encode buf.bytes.length
  put buf.bytes

/-- What the length field counts: the body and the parameters with the role. -/
def bodyWire (ord : IterOrder) (body : Bytes) (role : Role) (params : Params) : Bytes :=
  body ++ Params.wire ord (params.insert 0 role.wire)

def setupWire (ord : IterOrder) (typ : Nat) (body : Bytes) (role : Role) (params : Params) :
    Bytes :=
  VarInt.wire typ ++ (VarInt.wire (bodyWire ord body role params).length ++
    bodyWire ord body role params)

theorem storeRole_eq (params : Params) (role : Role) (w : BufMut) :
    storeRole params role w = .ok (params.insert 0 role.wire, w) := by
  have hroom : role.wire.length ≤ vec.remainingMut := by
    have hlen := VarInt.wire_length_le role.code
    simp only [Role.wire, vec, BufMut.remainingMut, List.length_nil]
    omega
  have hwrite := role.emits_encode.writes trivial hroom
  have hbytes : (vec.push role.wire).bytes = role.wire := rfl
  simp only [storeRole, Params.set, hwrite, hbytes]

theorem emits_unwrap {e : Encode} {f : BufMut → Encode} {p q : Prop} {bs cs : Bytes}
    (buf : BufMut) (he : Emits e p bs) (hf : Emits (f (buf.push bs)) q cs) :
    Emits (unwrap e buf >>= f) ((p ∧ bs.length ≤ buf.remainingMut) ∧ q) cs := by
  constructor
  intro w w'
  by_cases hok : p ∧ bs.length ≤ buf.remainingMut
  · have hrun : unwrap e buf w = .ok (buf.push bs, w) := by
      simp only [unwrap, he.writes hok.1 hok.2]
    rw [bind_ok hrun, hf.iff]
    simp [hok]
  · have hrun : unwrap e buf w = .error .panic := by
      unfold unwrap
      cases hbuf : e buf with
      | error fault => rfl
      | ok out =>
          obtain ⟨⟨⟩, buf'⟩ := out
          obtain ⟨hp, hroom, -⟩ := (he.iff buf buf').mp hbuf
          exact absurd ⟨hp, hroom⟩ hok
    rw [bind_error hrun]
    constructor
    · intro h
      cases h
    · rintro ⟨h, -⟩
      exact absurd h.1 hok

theorem emits_setup (ord : IterOrder) {typ : Nat} (htyp : fitsVarInt typ) {body : Encode}
    {ok : Prop} {bs : Bytes} (hbody : Emits body ok bs) (role : Role) (params : Params) :
    Emits (encodeSetup ord typ body role params)
      (ok ∧ Params.Ok (params.insert 0 role.wire) ∧ fitsVarInt (bodyWire ord bs role params).length)
      (setupWire ord typ bs role params) := by
  have hbuf : ((vec.push bs).push (Params.wire ord (params.insert 0 role.wire))).bytes =
      bodyWire ord bs role params := by
    simp [bodyWire, BufMut.push, vec]
  have hframe : Emits (do
      U64.encode ((vec.push bs).push (Params.wire ord (params.insert 0 role.wire))).bytes.length
      put ((vec.push bs).push (Params.wire ord (params.insert 0 role.wire))).bytes)
      (fitsVarInt (bodyWire ord bs role params).length)
      (VarInt.wire (bodyWire ord bs role params).length ++ bodyWire ord bs role params) := by
    rw [hbuf]
    exact ((U64.emits_encode _).bind (emits_put _)).congr (by simp) rfl
  have hstore (f : Params → Encode) : (storeRole params role >>= f) =
      f (params.insert 0 role.wire) := by
    funext w
    exact bind_ok (storeRole_eq params role w)
  have hparams := emits_unwrap (vec.push bs)
    (f := fun buf => do U64.encode buf.bytes.length; put buf.bytes)
    (Params.emits_encode ord (params.insert 0 role.wire)) hframe
  have hscratch := emits_unwrap vec
    (f := fun buf => do
      let params ← storeRole params role
      let buf ← unwrap (Params.encode ord params) buf
      U64.encode buf.bytes.length
      put buf.bytes) hbody (by rw [hstore]; exact hparams)
  unfold encodeSetup
  refine Emits.congr (Emits.bind (U64.emits_encode typ) hscratch) ?_ rfl
  -- A body that the length field can count fits the scratch buffer.
  have hroom : fitsVarInt (bodyWire ord bs role params).length →
      bs.length ≤ vec.remainingMut ∧ (Params.wire ord (params.insert 0 role.wire)).length ≤
        (vec.push bs).remainingMut := by
    intro hfits
    rw [bodyWire, List.length_append] at hfits
    simp only [vec, BufMut.push, BufMut.remainingMut, List.length_nil, List.nil_append]
    omega
  tauto

/-- Taking the role out undoes storing it. -/
theorem transfers_takeRole {params : Params} (role : Role) (hrole : 0 ∉ params)
    (hpath : 1 ∉ params) :
    Transfers (takeRole (params.insert 0 role.wire)) [] (role, params) := by
  refine ⟨?_, asks_nil _⟩
  intro rest
  have hread : Role.decode role.wire = .ok (role, []) := by
    have hreads := role.transfers_decode.reads []
    rwa [List.append_nil] at hreads
  have herase : (params.insert 0 role.wire).erase 0 = params := by
    apply Finmap.ext_lookup
    intro kind
    by_cases hkind : kind = 0
    · subst hkind
      rw [Finmap.lookup_erase, Finmap.lookup_eq_none.mpr hrole]
    · rw [Finmap.lookup_erase_ne hkind, Finmap.lookup_insert_of_ne _ hkind]
  have hget : Params.get Role.decode (params.insert 0 role.wire) 0 =
      .ok (some role, params) := by
    simp only [Params.get, Finmap.lookup_insert, hread, herase]
  have hhas : Params.has params 1 = false := decide_eq_false hpath
  simp only [takeRole, hget, hhas, List.nil_append, Bool.false_eq_true, if_false]

theorem transfers_header {α : Type} {typ len : Nat} (htyp : fitsVarInt typ) (hlen : fitsVarInt len)
    {body : Decode α} {bs : Bytes} {x : α} (hbody : Transfers body bs x) :
    Transfers (decodeHeader typ body) (VarInt.wire typ ++ (VarInt.wire len ++ bs)) x := by
  refine (U64.transfers_decode htyp).bind ?_
  simp only [ne_eq, not_true_eq_false, if_false]
  exact (U64.transfers_decode hlen).bind hbody

theorem transfers_setup (ord : IterOrder) {α β : Type} {typ : Nat} (htyp : fitsVarInt typ)
    {body : Decode α} {bs : Bytes} {x : α} (hbody : Transfers body bs x)
    (mk : α → Role → Params → β) {role : Role} {params : Params}
    (hparams : Params.Ok (params.insert 0 role.wire))
    (hlen : fitsVarInt (bodyWire ord bs role params).length) (hrole : 0 ∉ params)
    (hpath : 1 ∉ params) :
    Transfers (decodeSetup typ body mk) (setupWire ord typ bs role params) (mk x role params) := by
  have hsplit : setupWire ord typ bs role params =
      (VarInt.wire typ ++ (VarInt.wire (bodyWire ord bs role params).length ++ bs)) ++
        Params.wire ord (params.insert 0 role.wire) := by
    simp only [setupWire, bodyWire, List.append_assoc]
  rw [hsplit]
  refine (transfers_header htyp hlen hbody).bind ((Params.transfers_decode ord hparams).bind_nil ?_)
  exact (transfers_takeRole role hrole hpath).bind_nil (Transfers.pure _)

/-- Nothing inside a wire form is longer than the form. -/
theorem length_le_flatMap {ι : Type} (items : List ι) (wire : ι → Bytes)
    (hpos : ∀ item ∈ items, 1 ≤ (wire item).length) :
    items.length ≤ (items.flatMap wire).length ∧
      ∀ item ∈ items, (wire item).length ≤ (items.flatMap wire).length := by
  rw [List.length_flatMap]
  constructor
  · have hsum := List.length_le_sum_of_one_le (items.map fun item => (wire item).length) (by
      simpa using hpos)
    simpa using hsum
  · intro item hitem
    exact List.single_le_sum (by simp) _ (List.mem_map_of_mem hitem)

/-- Parameters with keys in range fit the wire as soon as their bytes can be
counted. -/
theorem params_ok (ord : IterOrder) {params : Params} (hkeys : ∀ kind ∈ params, fitsVarInt kind)
    (hlen : fitsVarInt (Params.wire ord params).length) : params.Ok := by
  have hentry (entry : Sigma fun _ : Nat => Bytes) :
      1 ≤ (Params.entryWire entry).length ∧ entry.2.length ≤ (Params.entryWire entry).length := by
    have hkind := VarInt.wire_length_pos entry.1
    simp only [Params.entryWire, blobWire, List.length_append]
    omega
  obtain ⟨hcount, hvalue⟩ := length_le_flatMap (ord.list params) Params.entryWire
    fun entry _ => (hentry entry).1
  rw [Params.wire, List.length_append] at hlen
  constructor
  · rw [← Params.length_list ord]
    omega
  · intro entry hentries
    refine ⟨hkeys entry.1 ?_, ?_⟩
    · exact Finmap.mem_def.mpr (Multiset.mem_map_of_mem Sigma.fst hentries)
    · have hvalue := hvalue entry (Params.mem_list.mpr hentries)
      have hsize := (hentry entry).2
      omega

theorem versions_ok {versions : Versions} (hvalues : ∀ v ∈ versions.list, fitsVarInt v.val)
    (hlen : fitsVarInt versions.wire.length) : versions.Ok := by
  refine ⟨?_, hvalues⟩
  obtain ⟨hcount, -⟩ := length_le_flatMap versions.list Version.wire
    fun v _ => VarInt.wire_length_pos v.val
  rw [Versions.wire, List.length_append] at hlen
  omega

/-- Sent by the client to setup the session. -/
structure Client where
  versions : Versions
  role : Role
  params : Params
deriving DecidableEq

namespace Client

def decode : Decode Client := decodeSetup 0x40 Versions.decode Client.mk

def encode (ord : IterOrder) (c : Client) : Encode :=
  encodeSetup ord 0x40 c.versions.encode c.role c.params

def body (ord : IterOrder) (c : Client) : Bytes :=
  bodyWire ord c.versions.wire c.role c.params

end Client

/-- Sent by the server in response to a client setup. -/
structure Server where
  version : Version
  role : Role
  params : Params
deriving DecidableEq

namespace Server

def decode : Decode Server := decodeSetup 0x41 Version.decode Server.mk

def encode (ord : IterOrder) (s : Server) : Encode :=
  encodeSetup ord 0x41 s.version.encode s.role s.params

def body (ord : IterOrder) (s : Server) : Bytes :=
  bodyWire ord s.version.wire s.role s.params

end Server

/-- The value is encoded, read back whole whatever follows, and its length
field counts the bytes behind it. -/
def RoundTrips {α : Type} (typ : Nat) (encode : Encode) (decode : Decode α) (v : α) : Prop :=
  ∃ out, encode bytesMut = .ok ((), out) ∧ (∀ s, decode (out.bytes ++ s) = .ok (v, s)) ∧
    ∃ body, out.bytes = VarInt.wire typ ++ (VarInt.wire body.length ++ body)

/-- Both setup messages at once: what is in front of the parameters is given
by its encoder, its decoder and its bytes. -/
theorem roundTrips_iff (ord : IterOrder) {α β : Type} {typ : Nat} (htyp : fitsVarInt typ)
    {enc : Encode} {dec : Decode α} {ok : Prop} {bs : Bytes} {x : α} (henc : Emits enc ok bs)
    (hdec : fitsVarInt bs.length → ok ∧ Transfers dec bs x) (mk : α → Role → Params → β)
    {role : Role} {params : Params} (hkeys : ∀ kind ∈ params, fitsVarInt kind)
    (hrole : 0 ∉ params) (hpath : 1 ∉ params) :
    RoundTrips typ (encodeSetup ord typ enc role params) (decodeSetup typ dec mk)
      (mk x role params) ↔ fitsVarInt (bodyWire ord bs role params).length := by
  have hemits := emits_setup ord htyp henc role params
  constructor
  · rintro ⟨out, hout, -⟩
    exact ((hemits.iff _ _).mp hout).1.2.2
  · intro hlen
    have hsplit := hlen
    rw [bodyWire, List.length_append] at hsplit
    obtain ⟨hok, hbody⟩ := hdec (by omega)
    have hstored : ∀ kind ∈ params.insert 0 role.wire, fitsVarInt kind := by
      intro kind hkind
      rcases Finmap.mem_insert.mp hkind with rfl | hkind
      · decide
      · exact hkeys kind hkind
    have hparams := params_ok ord hstored (by omega)
    have hroom : (setupWire ord typ bs role params).length ≤ bytesMut.remainingMut := by
      have htype := VarInt.wire_length_le typ
      have hcount := VarInt.wire_length_le (bodyWire ord bs role params).length
      simp only [setupWire, List.length_append, bytesMut, BufMut.remainingMut, List.length_nil]
      omega
    refine ⟨_, hemits.writes ⟨hok, hparams, hlen⟩ hroom, ?_, bodyWire ord bs role params, rfl⟩
    exact (transfers_setup ord htyp hbody mk hparams hlen hrole hpath).reads

/-- Every client and server setup, with its versions and keys in range and
neither reserved key among its parameters, survives the wire for every
iteration order, exactly when its length field can count its bytes. -/
theorem setup_round_trip (ord : IterOrder) :
    (∀ c : Client, (∀ v ∈ c.versions.list, v.val < 2 ^ 62) → (∀ kind ∈ c.params, kind < 2 ^ 62) →
      0 ∉ c.params → 1 ∉ c.params →
      (RoundTrips 0x40 (c.encode ord) Client.decode c ↔ (c.body ord).length < 2 ^ 62)) ∧
    (∀ s : Server, s.version.val < 2 ^ 62 → (∀ kind ∈ s.params, kind < 2 ^ 62) →
      0 ∉ s.params → 1 ∉ s.params →
      (RoundTrips 0x41 (s.encode ord) Server.decode s ↔ (s.body ord).length < 2 ^ 62)) := by
  constructor
  · intro c hversions hkeys hrole hpath
    refine roundTrips_iff ord (by decide) c.versions.emits_encode ?_ Client.mk hkeys hrole hpath
    intro hlen
    have hok := versions_ok hversions hlen
    exact ⟨hok, Versions.transfers_decode hok⟩
  · intro s hversion hkeys hrole hpath
    refine roundTrips_iff ord (by decide) s.version.emits_encode ?_ Server.mk hkeys hrole hpath
    intro _
    exact ⟨hversion, Version.transfers_decode hversion⟩

theorem list_insert_empty (ord : IterOrder) (kind : Nat) (value : Bytes) :
    ord.list ((∅ : Params).insert kind value) = [⟨kind, value⟩] := by
  have hentries := ord.entries ((∅ : Params).insert kind value)
  rw [Finmap.entries_insert_of_notMem Finmap.notMem_empty] at hentries
  exact Multiset.coe_eq_singleton.mp hentries

/-- However a map lists its entries, it takes up the same room. -/
theorem length_wire (ord : IterOrder) {params : Params} {items : List (Sigma fun _ : Nat => Bytes)}
    (h : params.entries = items) : (Params.wire ord params).length =
      (VarInt.wire items.length).length + (items.flatMap Params.entryWire).length := by
  have hperm : (ord.list params).Perm items :=
    Multiset.coe_eq_coe.mp ((ord.entries params).trans h)
  rw [Params.wire, List.length_append, hperm.length_eq, (hperm.flatMap_right _).length_eq]

/-- Two parameters besides the role. -/
def twoParams : Params := ((∅ : Params).insert 5 ([1, 2, 3] : Bytes)).insert 2 ([9] : Bytes)

theorem mem_twoParams {kind : Nat} : kind ∈ twoParams ↔ kind = 2 ∨ kind = 5 := by
  rw [twoParams, Finmap.mem_insert, Finmap.mem_insert]
  simp [Finmap.notMem_empty]

theorem entries_twoParams (role : Bytes) : (twoParams.insert 0 role).entries =
    ([⟨0, role⟩, ⟨2, [9]⟩, ⟨5, [1, 2, 3]⟩] : List (Sigma fun _ : Nat => Bytes)) := by
  have hrole : 0 ∉ twoParams := by
    rw [mem_twoParams]
    decide
  have hsecond : 2 ∉ (∅ : Params).insert 5 ([1, 2, 3] : Bytes) := by
    rw [Finmap.mem_insert]
    simp [Finmap.notMem_empty]
  rw [Finmap.entries_insert_of_notMem hrole, twoParams, Finmap.entries_insert_of_notMem hsecond,
    Finmap.entries_insert_of_notMem Finmap.notMem_empty]
  rfl

/-- A client with two versions and two parameters. -/
def twoClient : Client := ⟨⟨[⟨0xff000006⟩, Version.draft07]⟩, .both, twoParams⟩

def twoServer : Server := ⟨Version.draft07, .both, twoParams⟩

theorem setup_round_trip_two :
    (∀ ord, RoundTrips 0x40 (twoClient.encode ord) Client.decode twoClient) ∧
      ∀ ord, RoundTrips 0x41 (twoServer.encode ord) Server.decode twoServer := by
  have hkeys (kind : Nat) (hkind : kind ∈ twoParams) : kind < 2 ^ 62 := by
    rcases mem_twoParams.mp hkind with rfl | rfl
    · decide
    · decide
  have hrole : 0 ∉ twoParams := by simp [mem_twoParams]
  have hpath : 1 ∉ twoParams := by simp [mem_twoParams]
  constructor
  · intro ord
    refine ((setup_round_trip ord).1 twoClient ?_ hkeys hrole hpath).mpr ?_
    · simp [twoClient, Version.draft07]
    · simp only [Client.body, twoClient, bodyWire, List.length_append,
        length_wire ord (entries_twoParams _)]
      decide
  · intro ord
    refine ((setup_round_trip ord).2 twoServer ?_ hkeys hrole hpath).mpr ?_
    · simp [twoServer, Version.draft07]
    · simp only [Server.body, twoServer, bodyWire, List.length_append,
        length_wire ord (entries_twoParams _)]
      decide

/-- A value that no varint can count. -/
def hugeValue : Bytes := List.replicate (2 ^ 62) 0

theorem hugeValue_length : hugeValue.length = 2 ^ 62 := List.length_replicate

/-- No machine holds such a value. It only shows the bound on the length that is
needed for every map there is. -/
def hugeClient : Client := ⟨⟨[Version.draft07]⟩, .both, (∅ : Params).insert 2 hugeValue⟩

theorem hugeClient_refused :
    (∀ v ∈ hugeClient.versions.list, v.val < 2 ^ 62) ∧
      (∀ kind ∈ hugeClient.params, kind < 2 ^ 62) ∧ 0 ∉ hugeClient.params ∧
      1 ∉ hugeClient.params ∧
      ∀ ord, ¬ ∃ out, hugeClient.encode ord bytesMut = .ok ((), out) := by
  have hmem (kind : Nat) : kind ∈ hugeClient.params ↔ kind = 2 := by
    rw [hugeClient, Finmap.mem_insert]
    simp [Finmap.notMem_empty]
  refine ⟨?_, ?_, ?_, ?_, ?_⟩
  · simp [hugeClient, Version.draft07]
  · intro kind hkind
    rw [hmem] at hkind
    omega
  · rw [hmem]
    decide
  · rw [hmem]
    decide
  · rintro ord ⟨out, hout⟩
    have hparams := (((emits_setup ord (by decide) hugeClient.versions.emits_encode
      hugeClient.role hugeClient.params).iff _ _).mp hout).1.2.1
    have hentry : (⟨2, hugeValue⟩ : Sigma fun _ : Nat => Bytes) ∈
        (hugeClient.params.insert 0 hugeClient.role.wire).entries := by
      rw [← Finmap.lookup_eq_some_iff, Finmap.lookup_insert_of_ne _ (by decide), hugeClient,
        Finmap.lookup_insert]
    have hfits := (hparams.2 _ hentry).2
    rw [fitsVarInt, hugeValue_length] at hfits
    omega

end MoqTransport.Setup
