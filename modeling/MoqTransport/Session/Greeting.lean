import Mathlib.Data.List.TakeWhile
import MoqTransport.Session.Control

/-!
What two sessions send each other. The first bytes of each end are its SETUP
with the role it tells; then come the messages that its handles queue. Their
decoders may be rerun on a growing buffer: a session asks for the latest group
only, so none of its messages is the absolute range that cannot be cut.

The start and the end that a SUBSCRIBE is made with are not on the wire for
that filter, so the other end sees it without them (`Message.normal`).
-/

namespace MoqTransport

open Streaming Coding Setup

namespace Session.Control

/-- The bytes of a SETUP. -/
def hello (ord : IterOrder) (isServer : Bool) (role : Role) : Bytes :=
  if isServer then setupWire ord 0x41 Version.draft07.wire role ∅
  else setupWire ord 0x40 (Versions.wire ⟨[Version.draft07]⟩) role ∅

theorem params_role_ok (role : Role) : Params.Ok ((∅ : Params).insert 0 role.wire) := by
  have hentries : ((∅ : Params).insert 0 role.wire).entries = {⟨0, role.wire⟩} :=
    Finmap.entries_insert_of_notMem Finmap.notMem_empty
  rw [Params.Ok, hentries]
  constructor
  · rw [Multiset.card_singleton]
    decide
  · intro entry hentry
    obtain rfl := Multiset.mem_singleton.mp hentry
    cases role <;> decide

theorem body_fits (ord : IterOrder) (role : Role) {body : Bytes} (hbody : body.length < 2 ^ 8) :
    fitsVarInt (bodyWire ord body role ∅).length := by
  have hparams : (Params.wire ord ((∅ : Params).insert 0 role.wire)).length < 2 ^ 8 := by
    rw [Params.wire, list_insert_empty]
    cases role <;> decide
  rw [bodyWire, List.length_append]
  unfold fitsVarInt
  omega

theorem hello_length (ord : IterOrder) (isServer : Bool) (role : Role) :
    (hello ord isServer role).length ≤ bytesMut.remainingMut := by
  have hbound {typ : Nat} {body : Bytes} (hbody : body.length < 2 ^ 8) :
      (setupWire ord typ body role ∅).length ≤ bytesMut.remainingMut := by
    have htype := VarInt.wire_length_le typ
    have hcount := VarInt.wire_length_le (bodyWire ord body role ∅).length
    have hfits := body_fits ord role hbody
    simp only [setupWire, List.length_append, bytesMut, BufMut.remainingMut, List.length_nil]
    unfold fitsVarInt at hfits
    omega
  cases isServer
  · exact hbound (by decide)
  · exact hbound (by decide)

theorem hello_ne_nil (ord : IterOrder) (isServer : Bool) (role : Role) :
    hello ord isServer role ≠ [] := by
  have hwire {typ : Nat} {body : Bytes} : setupWire ord typ body role ∅ ≠ [] := by
    have hpos := VarInt.wire_length_pos typ
    intro hnone
    rw [setupWire, List.append_eq_nil_iff] at hnone
    rw [hnone.1] at hpos
    cases hpos
  cases isServer
  · exact hwire
  · exact hwire

def clientSetup (role : Role) : Client := ⟨⟨[Version.draft07]⟩, role, ∅⟩

def serverSetup (role : Role) : Server := ⟨Version.draft07, role, ∅⟩

theorem versions_draft_ok : Versions.Ok ⟨[Version.draft07]⟩ := by
  constructor
  · decide
  · simp [Version.draft07]

theorem encode_client (ord : IterOrder) (role : Role) :
    (clientSetup role).encode ord bytesMut = .ok ((), bytesMut.push (hello ord false role)) := by
  have htype : fitsVarInt 0x40 := by decide
  have hemits := emits_setup ord htype (Versions.emits_encode ⟨[Version.draft07]⟩) role ∅
  exact hemits.writes ⟨versions_draft_ok, params_role_ok role, body_fits ord role (by decide)⟩
    (hello_length ord false role)

theorem encode_server (ord : IterOrder) (role : Role) :
    (serverSetup role).encode ord bytesMut = .ok ((), bytesMut.push (hello ord true role)) := by
  have htype : fitsVarInt 0x41 := by decide
  have hemits := emits_setup ord htype (Version.emits_encode Version.draft07) role ∅
  have hversion : fitsVarInt Version.draft07.val := by decide
  exact hemits.writes ⟨hversion, params_role_ok role, body_fits ord role (by decide)⟩
    (hello_length ord true role)

theorem transfers_client (ord : IterOrder) (role : Role) :
    Transfers Client.decode (hello ord false role) (clientSetup role) :=
  transfers_setup ord (by decide) (Versions.transfers_decode versions_draft_ok) Client.mk
    (params_role_ok role) (body_fits ord role (by decide)) Finmap.notMem_empty
    Finmap.notMem_empty

theorem transfers_server (ord : IterOrder) (role : Role) :
    Transfers Server.decode (hello ord true role) (serverSetup role) :=
  transfers_setup ord (by decide) (Version.transfers_decode (by decide)) Server.mk
    (params_role_ok role) (body_fits ord role (by decide)) Finmap.notMem_empty
    Finmap.notMem_empty

end Session.Control

/-- A SUBSCRIBE as it is read. -/
def Message.Subscribe.normal (m : Subscribe) : Subscribe :=
  match m.filterType with
  | .latestGroup | .latestObject => { m with start := none, end_ := none }
  | _ => m

/-- A message as it is read. -/
def Message.normal : Message → Message
  | .subscribe m => .subscribe m.normal
  | m => m

namespace Session.Control

/-- What the handles of a session with a role queue: messages of the halves it
has, a SUBSCRIBE for the latest group only and no expiry in a SUBSCRIBE_OK. What
is in them may be too large for a varint. -/
def Sends (role : Role) : Message → Prop
  | .announce _ | .unannounce _ | .subscribeError _ | .subscribeDone _ | .trackStatus _ =>
      role.isPublisher = true
  | .subscribeOk m => role.isPublisher = true ∧ m.expires = none
  | .announceOk _ | .announceError _ | .announceCancel _ | .unsubscribe _ =>
      role.isSubscriber = true
  | .subscribe m => role.isSubscriber = true ∧ m.filterType = .latestGroup
  | _ => False

end Session.Control

namespace Message

/-- The message has an encoding. -/
def encodes (ord : IterOrder) (m : Message) : Bool :=
  match m.encode ord bytesMut with
  | .ok _ => true
  | .error _ => false

variable {ord : IterOrder} {m : Message}

theorem encode_of_ok (h : m.Ok ord) :
    m.encode ord bytesMut = .ok ((), bytesMut.push (m.wire ord)) :=
  (emits_encode ord m).writes h (wire_length ord h)

theorem encodes_of_ok (h : m.Ok ord) : m.encodes ord = true := by
  rw [encodes, encode_of_ok h]

theorem not_encodes {f : Fault EncodeError} (h : m.encode ord bytesMut = .error f) :
    m.encodes ord = false := by
  rw [encodes, h]

/-- The messages before the first that has no encoding. -/
def sendable (ord : IterOrder) (ms : List Message) : List Message :=
  ms.takeWhile (encodes ord)

theorem sendable_of_ok {ms : List Message} (h : ∀ m ∈ ms, m.Ok ord) : sendable ord ms = ms :=
  List.takeWhile_eq_self_iff.mpr fun m hm => encodes_of_ok (h m hm)

theorem sendable_of_error {ms rest : List Message} {f : Fault EncodeError}
    (h : ∀ m ∈ ms, m.Ok ord) (hm : m.encode ord bytesMut = .error f) :
    sendable ord (ms ++ m :: rest) = ms := by
  rw [sendable, List.takeWhile_append_of_pos fun m hm => encodes_of_ok (h m hm),
    List.takeWhile_cons_of_neg (by simp [not_encodes hm]), List.append_nil]

end Message

namespace Session.Control

variable {ord : IterOrder} {role : Role} {m : Message}

theorem bodyWire_normal (ord : IterOrder) (m : Message) :
    m.normal.bodyWire ord = m.bodyWire ord := by
  cases m with
  | subscribe s =>
      change s.normal.wire ord = s.wire ord
      unfold Message.Subscribe.normal
      split
      all_goals first
        | rfl
        | next hfilter =>
            simp only [Message.Subscribe.wire, Message.Subscribe.headWire, hfilter,
              Message.Subscribe.rangeWire]
  | _ => rfl

theorem wire_normal (ord : IterOrder) (m : Message) : m.normal.wire ord = m.wire ord := by
  have hid : m.normal.id = m.id := by cases m <;> rfl
  rw [Message.wire, Message.wire, Message.frameWire, Message.frameWire, bodyWire_normal, hid]

theorem ok_normal (h : m.Ok ord) : m.normal.Ok ord := by
  obtain ⟨hbody, hlength⟩ := h
  refine ⟨?_, by rw [bodyWire_normal]; exact hlength⟩
  cases m with
  | subscribe s =>
      have hall : s.Ok := hbody
      change s.normal.Ok
      obtain ⟨hid, halias, hnamespace, hname, -, hparams⟩ := hbody
      unfold Message.Subscribe.normal
      split
      · next hfilter =>
          exact ⟨hid, halias, hnamespace, hname, by rw [hfilter]; trivial, hparams⟩
      · next hfilter =>
          exact ⟨hid, halias, hnamespace, hname, by rw [hfilter]; trivial, hparams⟩
      · exact hall
  | _ => exact hbody

theorem Sends.transfers (hkind : Sends role m) (hok : m.Ok ord) :
    Transfers Message.decode (m.wire ord) m.normal := by
  have hcanonical : m.normal.Canonical ∧ m.normal.filter? ≠ some .absoluteStart ∧
      m.normal.filter? ≠ some .absoluteRange := by
    cases m with
    | subscribe s =>
        obtain ⟨-, hfilter⟩ := hkind
        have hnormal : s.normal = { s with start := none, end_ := none } := by
          rw [Message.Subscribe.normal, hfilter]
        simp only [Message.normal, Message.Canonical, Message.filter?, hnormal,
          Message.Subscribe.Canonical, hfilter, Message.Subscribe.rangeCanonical]
        simp
    | subscribeOk s =>
        obtain ⟨-, hexpires⟩ := hkind
        simp [Message.normal, Message.Canonical, Message.filter?, Message.SubscribeOk.Canonical,
          hexpires]
    | _ => simp_all [Sends, Message.normal, Message.Canonical, Message.filter?]
  rw [← wire_normal]
  exact Message.transfers_decode ord (ok_normal hok) hcanonical.1 hcanonical.2

theorem wire_length_pos (ord : IterOrder) (m : Message) : 0 < (m.wire ord).length := by
  have hpos := VarInt.wire_length_pos m.id
  simp only [Message.wire, Message.frameWire, List.length_append]
  omega

theorem Subscriber.recvMessage_cases {m : Message} (result : Except SessionError Unit)
    (hok : ∀ g, m ≠ .fetchOk g) (herror : ∀ g, m ≠ .fetchError g) :
    Subscriber.recvMessage m result = .ok () ∨ ∃ e, result = .error e ∧
      Subscriber.recvMessage m result = .error (.err e) := by
  unfold Subscriber.recvMessage
  split
  · exact absurd rfl (hok _)
  · exact absurd rfl (herror _)
  · exact .inl rfl
  · next e _ _ _ => exact .inr ⟨e, rfl, rfl⟩
  · exact .inl rfl

/-- A compatible session handles it, and fails only if the handler does. -/
theorem Sends.dispatch {other : Role} (hkind : Sends role m)
    (hroles : role.isCompatible other = true) (result : Except SessionError Unit) :
    dispatch other m.normal result = .ok () ∨ ∃ e, result = .error e ∧
      dispatch other m.normal result = .error (.err e) := by
  simp only [Role.isCompatible, Bool.and_eq_true, beq_iff_eq] at hroles
  obtain ⟨hpublisher, hsubscriber⟩ := hroles
  have hsend {m : Message} (hm : m.ofPublisher = true) (hrole : role.isPublisher = true)
      (hok : ∀ g, m ≠ .fetchOk g) (herror : ∀ g, m ≠ .fetchError g) :
      Control.dispatch other m result = .ok () ∨ ∃ e, result = .error e ∧
        Control.dispatch other m result = .error (.err e) := by
    rw [hpublisher] at hrole
    simp only [Control.dispatch, hm, hrole, if_true]
    exact Subscriber.recvMessage_cases result hok herror
  have hanswer {m : Message} (hm : m.ofPublisher = false) (hm' : m.ofSubscriber = true)
      (hrole : role.isSubscriber = true) (hkept : Publisher.recvMessage m = .ok ()) :
      Control.dispatch other m result = .ok () := by
    rw [hsubscriber] at hrole
    simp [Control.dispatch, hm, hm', hrole, hkept]
  cases m with
  | announce m => exact hsend rfl hkind (by simp [Message.normal]) (by simp [Message.normal])
  | unannounce m => exact hsend rfl hkind (by simp [Message.normal]) (by simp [Message.normal])
  | subscribeOk m => exact hsend rfl hkind.1 (by simp [Message.normal]) (by simp [Message.normal])
  | subscribeError m => exact hsend rfl hkind (by simp [Message.normal]) (by simp [Message.normal])
  | subscribeDone m => exact hsend rfl hkind (by simp [Message.normal]) (by simp [Message.normal])
  | trackStatus m => exact hsend rfl hkind (by simp [Message.normal]) (by simp [Message.normal])
  | announceOk m => exact .inl (hanswer rfl rfl hkind rfl)
  | announceError m => exact .inl (hanswer rfl rfl hkind rfl)
  | announceCancel m => exact .inl (hanswer rfl rfl hkind rfl)
  | unsubscribe m => exact .inl (hanswer rfl rfl hkind rfl)
  | subscribe m => exact .inl (hanswer rfl rfl hkind.1 rfl)
  | _ => exact hkind.elim

end Session.Control

end MoqTransport
