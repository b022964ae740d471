import MoqTransport.Ws.Streams

/-!
Two ends of one session. The socket between them is in order and loses
nothing while it is up, so it is the log of what one end has sent, and a
count of how much of it the other has read.
-/

namespace MoqTransport.Ws

open Streaming Machine
open Proto (VarInt)

structure Link where
  ends : Bool → Endpoint
  taken : Bool → Nat

namespace Link

def new : Link := ⟨Endpoint.new, fun _ => 0⟩

/-- An act of one of the ends; a message is the next that the other has
sent. -/
abbrev Act := Bool × Endpoint.Act

def step (l : Link) (a : Act) : Option Link :=
  match a.2 with
  | .message m =>
      if (l.ends !a.1).sent[l.taken a.1]? = some m then
        ((l.ends a.1).step (.message m)).map fun e =>
          ⟨Function.update l.ends a.1 e, Function.update l.taken a.1 (l.taken a.1 + 1)⟩
      else none
  | act => ((l.ends a.1).step act).map fun e => ⟨Function.update l.ends a.1 e, l.taken⟩

variable {l l' : Link}

/-- A step is one of an end, and reads a message if it is of one. -/
theorem step_cases {b : Bool} {act : Endpoint.Act} (h : l.step (b, act) = some l') :
    ∃ e, (l.ends b).step act = some e ∧ l'.ends = Function.update l.ends b e ∧
      ((∃ m, act = .message m ∧ (l.ends !b).sent[l.taken b]? = some m ∧
          l'.taken = Function.update l.taken b (l.taken b + 1)) ∨
        (∀ m, act ≠ .message m) ∧ l'.taken = l.taken) := by
  have hother (hact : ∀ m, act ≠ .message m)
      (h : ((l.ends b).step act).map (fun e =>
        (⟨Function.update l.ends b e, l.taken⟩ : Link)) = some l') :
      ∃ e, (l.ends b).step act = some e ∧ l'.ends = Function.update l.ends b e ∧
        ((∃ m, act = .message m ∧ (l.ends !b).sent[l.taken b]? = some m ∧
            l'.taken = Function.update l.taken b (l.taken b + 1)) ∨
          (∀ m, act ≠ .message m) ∧ l'.taken = l.taken) := by
    obtain ⟨e, he, rfl⟩ := Option.map_eq_some_iff.mp h
    exact ⟨e, he, rfl, .inr ⟨hact, rfl⟩⟩
  cases act with
  | message m =>
      simp only [step] at h
      split at h
      · next hm =>
          obtain ⟨e, he, rfl⟩ := Option.map_eq_some_iff.mp h
          exact ⟨e, he, rfl, .inl ⟨m, rfl, hm, rfl⟩⟩
      · cases h
  | _ => exact hother (fun m hm => by cases hm) h

/-- Sessions are closed with codes and reasons of a kind. -/
def ClosesWith (P : VarInt → String → Prop) (_ : Link) (a : Act) : Prop :=
  match a.2 with
  | .close code reason => P (codeOf code) reason
  | _ => True

/-- Both ends follow the protocol. -/
structure Sound (P : VarInt → String → Prop) (l : Link) : Prop where
  side : ∀ b, (l.ends b).isServer = b
  sound : ∀ b, (l.ends b).Sound P

variable {P : VarInt → String → Prop}

theorem sound_new : Sound P new where
  side := fun _ => rfl
  sound := Endpoint.sound_new

/-- What one end has sent the other may take. -/
theorem Sound.honest (h : Sound P l) {b : Bool} {act : Endpoint.Act} {l' : Link}
    (hcloses : ClosesWith P l (b, act)) (hstep : l.step (b, act) = some l') :
    (l.ends b).Honest P act := by
  obtain ⟨e, -, -, hmessage⟩ := step_cases hstep
  cases act with
  | message m =>
      rcases hmessage with ⟨m', hm', hsent, -⟩ | ⟨hnot, -⟩
      · obtain rfl : m = m' := by simpa using hm'
        obtain ⟨frame, hframe, hallowed⟩ :=
          (h.sound !b).sent m (List.mem_of_getElem? hsent)
        rw [h.side] at hallowed
        refine ⟨frame, hframe, ?_⟩
        rw [h.side]
        exact hallowed
      · exact absurd rfl (hnot m)
  | close code reason => exact hcloses
  | _ => trivial

theorem Sound.step (h : Sound P l) {a : Act} (hcloses : ClosesWith P l a)
    (hstep : l.step a = some l') : Sound P l' := by
  obtain ⟨b, act⟩ := a
  obtain ⟨e, he, hends, -⟩ := step_cases hstep
  have hsound : e.Sound P := (h.sound b).step (h.honest hcloses hstep) he
  constructor
  · intro b'
    rw [hends]
    by_cases hb : b' = b
    · subst hb
      rw [Function.update_self, Endpoint.isServer_step he, h.side]
    · rw [Function.update_of_ne hb, h.side]
  · intro b'
    rw [hends]
    by_cases hb : b' = b
    · subst hb
      rw [Function.update_self]
      exact hsound
    · rw [Function.update_of_ne hb]
      exact h.sound b'

/-- Two ends of this kind never end a session over the protocol: whatever is
opened, written, reset, stopped or given up in whatever order, a session that
is closed was closed with the code and the reason of a call, or the socket
or its task went away. -/
theorem no_protocol_error (hl : Reachable step (ClosesWith P) new l) (b : Bool) {error : Error}
    (herror : (l.ends b).closed = some error) :
    error = .closed ∨ ∃ code reason, error = .connectionClosed code reason ∧ P code reason :=
  have h : Sound P l := hl.invariant sound_new fun h hcloses hstep => h.step hcloses hstep
  (h.sound b).closed error herror

/-- The server closes the session, and the client learns the code. -/
theorem no_protocol_error_close :
    ∃ l, Reachable step (ClosesWith fun code _ => code.val = 7) new l ∧
      ∃ error, (l.ends false).closed = some error ∧
        (error = .closed ∨ ∃ code reason, error = .connectionClosed code reason ∧
          code.val = 7) := by
  have hrun : ∃ l error, run step
      (fun _ a => match a.2 with | .close code _ => code == 7 | _ => true) new
      [(true, .close 7 ""), (true, .priority),
        (false, .message (.binary (Frame.connectionClose ⟨codeOf 7, ""⟩).encode))] = some l ∧
      (l.ends false).closed = some error := ⟨_, _, rfl, rfl⟩
  obtain ⟨l, error, hl, herror⟩ := hrun
  have hreachable : Reachable step (ClosesWith fun code _ => code.val = 7) new l := by
    refine reachable_of_run _ (fun l a ha => ?_) hl
    obtain ⟨b, act⟩ := a
    cases act with
    | close code reason =>
        obtain rfl : code = 7 := by simpa using ha
        rfl
    | _ => trivial
  exact ⟨l, hreachable, error, herror, no_protocol_error hreachable false herror⟩

end Link

end MoqTransport.Ws
