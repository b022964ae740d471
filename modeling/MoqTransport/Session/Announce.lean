import MoqTransport.Session.Publisher

/-!
The announcements of a publisher, through every step of its session. An entry
of the table leads to an announcement that its handle can still withdraw, and
only `announce` adds entries.
-/

namespace MoqTransport.Session

open Coding

/-- The announcement is in the table, and its `Announce` can still withdraw
it. -/
structure AnnounceCell.Offered (c : AnnounceCell) : Prop where
  recv : c.recv = true
  closed : c.closed = none
  phase : c.phase = .held ∨ c.phase = .unannouncing

namespace Publisher

/-- The table of announcements leads to those that are offered. -/
def AnnouncesOk (s : Publisher) : Prop :=
  ∀ ns a, s.announces.lookup ns = some a →
    ∃ c, s.announcements[a]? = some c ∧ c.namespace_ = ns ∧ c.Offered

/-- What a step does to the announcements: nothing, a new one, a change to one
that stays offered if it was, or the entry of a namespace goes. -/
inductive AnnounceSteps (s s' : Publisher) : PublisherAct → Prop where
  | quiet {act : PublisherAct} (hannounces : s'.announces = s.announces)
      (hcells : s'.announcements = s.announcements) : AnnounceSteps s s' act
  | announced {ns : Tuple} (hvacant : s.announces.lookup ns = none)
      (hannounces : s'.announces = s.announces.insert ns s.announcements.length)
      (hcells : s'.announcements = s.announcements ++ [⟨ns, false, none, true, .held⟩]) :
      AnnounceSteps s s' (.announce ns)
  | changed {act : PublisherAct} {a : Nat} {c c' : AnnounceCell}
      (hc : s.announcements[a]? = some c) (hannounces : s'.announces = s.announces)
      (hcells : s'.announcements = s.announcements.set a c')
      (hns : c'.namespace_ = c.namespace_) (hoffered : c.Offered → c'.Offered) :
      AnnounceSteps s s' act
  | taken {act : PublisherAct} (ns : Tuple)
      (hannounces : ∀ ns' a, s'.announces.lookup ns' = some a →
        ns' ≠ ns ∧ s.announces.lookup ns' = some a)
      (hcells : ∀ a c, s.announcements[a]? = some c → c.namespace_ ≠ ns →
        s.announces.lookup ns ≠ some a → s'.announcements[a]? = some c) : AnnounceSteps s s' act

variable {s s' : Publisher} {act : PublisherAct}

theorem announces_pushMessage (s : Publisher) (handle : Option Nat) (message : Message) :
    (s.pushMessage handle message).announces = s.announces ∧
      (s.pushMessage handle message).announcements = s.announcements := by
  unfold pushMessage
  split
  · exact ⟨rfl, rfl⟩
  · exact ⟨rfl, rfl⟩

theorem announces_release (s : Publisher) (a : Nat) (c : AnnounceCell) :
    (s.release a c).announces = s.announces ∧
      (s.release a c).announcements = s.announcements := by
  unfold release
  split
  · exact ⟨rfl, rfl⟩
  · exact ⟨rfl, rfl⟩

theorem announces_serve (s : Publisher) (i : Nat) (handle : SubscribedHandle) :
    (s.serve i handle).announces = s.announces ∧
      (s.serve i handle).announcements = s.announcements := by
  unfold serve
  split
  · exact ⟨rfl, rfl⟩
  · exact announces_pushMessage _ _ _

theorem announces_recvSubscribe {msg : Message.Subscribe} (h : s.recvSubscribe msg = .ok s') :
    s'.announces = s.announces ∧ s'.announcements = s.announcements := by
  unfold recvSubscribe at h
  split at h
  · cases h
  · cases h
    exact ⟨rfl, rfl⟩

theorem announces_dropSubscribe (s : Publisher) (id : Nat) :
    (s.dropSubscribe id).announces = s.announces ∧
      (s.dropSubscribe id).announcements = s.announcements := by
  unfold dropSubscribe
  split
  · exact ⟨rfl, rfl⟩
  · exact ⟨rfl, rfl⟩

/-- The entry of a namespace goes, and with it at most the cell it leads to
changes. -/
theorem announces_takeAnnounce (s : Publisher) (ns : Tuple) (f : AnnounceCell → AnnounceCell) :
    (∀ ns' a, (s.takeAnnounce ns f).announces.lookup ns' = some a →
      ns' ≠ ns ∧ s.announces.lookup ns' = some a) ∧
    ∀ a, s.announces.lookup ns ≠ some a →
      (s.takeAnnounce ns f).announcements[a]? = s.announcements[a]? := by
  have herase {ns' : Tuple} {a : Nat} (h : (s.announces.erase ns).lookup ns' = some a) :
      ns' ≠ ns ∧ s.announces.lookup ns' = some a := by
    by_cases hns : ns' = ns
    · rw [hns, Finmap.lookup_erase] at h
      cases h
    · rw [Finmap.lookup_erase_ne hns] at h
      exact ⟨hns, h⟩
  unfold takeAnnounce
  cases hlookup : s.announces.lookup ns with
  | none =>
      refine ⟨?_, fun _ _ => rfl⟩
      intro ns' a ha
      refine ⟨?_, ha⟩
      rintro rfl
      rw [hlookup] at ha
      cases ha
  | some b =>
      dsimp only
      cases hcell : s.announcements[b]? with
      | none => exact ⟨fun ns' a ha => herase ha, fun _ _ => rfl⟩
      | some c =>
          obtain ⟨hannounces, hcells⟩ := announces_release
            ({ s with announces := s.announces.erase ns }.setAnnounce b { f c with recv := false })
            b { f c with recv := false }
          refine ⟨?_, ?_⟩
          · intro ns' a ha
            rw [hannounces] at ha
            exact herase ha
          · intro a ha
            rw [hcells]
            have hne : b ≠ a := fun h => ha (congrArg some h)
            exact List.getElem?_set_ne hne

theorem announceSteps_takeAnnounce (s : Publisher) (act : PublisherAct) (ns : Tuple)
    (f : AnnounceCell → AnnounceCell) : AnnounceSteps s (s.takeAnnounce ns f) act := by
  obtain ⟨hannounces, hcells⟩ := announces_takeAnnounce s ns f
  refine .taken ns hannounces ?_
  intro a c hc _ hother
  rw [hcells a hother, hc]

theorem announceSteps_announce (s : Publisher) (ns : Tuple) :
    AnnounceSteps s (s.announce ns) (.announce ns) := by
  unfold announce
  cases hlookup : s.announces.lookup ns with
  | some a => exact .quiet rfl rfl
  | none =>
      obtain ⟨hannounces, hcells⟩ :=
        announces_pushMessage s none (.announce { namespace_ := ns, params := ∅ })
      refine .announced hlookup ?_ ?_
      · dsimp only
        rw [hannounces, hcells]
      · dsimp only
        rw [hcells]

theorem announceSteps_recvAnnounceOk (s : Publisher) (msg : Message.AnnounceOk) :
    AnnounceSteps s (s.recvAnnounceOk msg) (.announceOk msg) := by
  unfold recvAnnounceOk
  split
  · exact .quiet rfl rfl
  · split
    · exact .quiet rfl rfl
    · next c hc =>
        split
        · exact .quiet rfl rfl
        · exact .changed hc rfl rfl rfl fun h => ⟨h.recv, h.closed, h.phase⟩

theorem eq_of_withAnnounce {a : Nat} {phase : AnnouncePhase} {f : AnnounceCell → Publisher}
    (h : s.withAnnounce a phase f = some s') :
    ∃ c, s.announcements[a]? = some c ∧ c.phase = phase ∧ s' = f c := by
  unfold withAnnounce at h
  split at h
  · next c hc =>
      split at h
      · next hphase => exact ⟨c, hc, hphase, (Option.some.inj h).symm⟩
      · cases h
  · cases h

theorem announceSteps_endAnnounce {mid : Publisher} (hannounces : mid.announces = s.announces)
    (hcells : mid.announcements = s.announcements) {a : Nat} {c : AnnounceCell}
    (hc : s.announcements[a]? = some c) (hgone : ¬ c.Offered) (act : PublisherAct) :
    AnnounceSteps s (mid.endAnnounce a c) act := by
  let last : AnnounceCell := { c with phase := .gone }
  obtain ⟨hannounces', hcells'⟩ := announces_release (mid.setAnnounce a last) a last
  have hset : (mid.setAnnounce a last).announcements = s.announcements.set a last := by
    rw [← hcells]
    rfl
  exact .changed hc (hannounces'.trans hannounces) (hcells'.trans hset) rfl
    fun hoffered => absurd hoffered hgone

/-- The owner of an announcement takes it back. -/
theorem announceSteps_unannounce {a : Nat} {c : AnnounceCell} (hc : s.announcements[a]? = some c)
    (act : PublisherAct) :
    AnnounceSteps s ((s.setAnnounce a { c with phase := .pushing }).takeAnnounce c.namespace_ id)
      act := by
  obtain ⟨hannounces, hcells⟩ :=
    announces_takeAnnounce (s.setAnnounce a { c with phase := .pushing }) c.namespace_ id
  refine .taken c.namespace_ hannounces ?_
  intro b c' hc' hns hother
  rw [hcells b hother]
  have hne : a ≠ b := by
    rintro rfl
    rw [hc] at hc'
    cases hc'
    exact hns rfl
  exact (List.getElem?_set_ne hne).trans hc'

theorem announceSteps_of_step (h : s.step act = some s') : AnnounceSteps s s' act := by
  cases act with
  | subscribe msg =>
      simp only [step] at h
      split at h
      · next hrecv =>
          cases h
          obtain ⟨hannounces, hcells⟩ := announces_recvSubscribe hrecv
          exact .quiet hannounces hcells
      · cases h
        exact .quiet rfl rfl
  | unsubscribe msg =>
      simp only [step] at h
      split at h
      · cases h
        exact .quiet rfl rfl
      · cases h
        exact .quiet rfl rfl
  | route i | pop i | update i _ _ | served i _ | close i _ | discard i | closed i =>
      obtain ⟨handle, -, h⟩ := Option.bind_eq_some_iff.mp h
      obtain ⟨handle', -, h⟩ := Option.bind_eq_some_iff.mp h
      cases h
      exact .quiet rfl rfl
  | serve i =>
      obtain ⟨handle, -, h⟩ := Option.bind_eq_some_iff.mp h
      split at h
      · cases h
        obtain ⟨hannounces, hcells⟩ := announces_serve s i handle
        exact .quiet hannounces hcells
      · cases h
  | drop i =>
      obtain ⟨handle, -, h⟩ := Option.bind_eq_some_iff.mp h
      split at h
      · cases h
        exact .quiet rfl rfl
      · cases h
  | remove i =>
      obtain ⟨handle, -, h⟩ := Option.bind_eq_some_iff.mp h
      split at h
      · cases h
        obtain ⟨hannounces, hcells⟩ := announces_dropSubscribe s handle.msg.id
        exact .quiet hannounces hcells
      · cases h
  | push i =>
      obtain ⟨handle, -, h⟩ := Option.bind_eq_some_iff.mp h
      split at h
      · cases h
        obtain ⟨hannounces, hcells⟩ := announces_pushMessage _ _ _
        exact .quiet hannounces hcells
      · cases h
  | announce ns =>
      cases h
      exact announceSteps_announce s ns
  | announceOk msg =>
      cases h
      exact announceSteps_recvAnnounceOk s msg
  | announceError msg =>
      cases h
      exact announceSteps_takeAnnounce s _ msg.namespace_ _
  | announceCancel msg =>
      cases h
      exact announceSteps_takeAnnounce s _ msg.namespace_ _
  | dropAnnounce a =>
      obtain ⟨c, hc, -, rfl⟩ := eq_of_withAnnounce h
      split
      · next hclosed =>
          apply announceSteps_endAnnounce rfl rfl hc
          intro hoffered
          simp [hoffered.closed] at hclosed
      · exact .changed hc rfl rfl rfl fun h => ⟨h.recv, h.closed, .inr rfl⟩
  | unannounce a =>
      obtain ⟨c, hc, -, rfl⟩ := eq_of_withAnnounce h
      exact announceSteps_unannounce hc _
  | unannounced a =>
      obtain ⟨c, hc, hphase, rfl⟩ := eq_of_withAnnounce h
      obtain ⟨hannounces, hcells⟩ :=
        announces_pushMessage s none (.unannounce { namespace_ := c.namespace_ })
      apply announceSteps_endAnnounce hannounces hcells hc
      intro hoffered
      rcases hoffered.phase with hheld | hother
      · cases hphase.symm.trans hheld
      · cases hphase.symm.trans hother
  | closeUnknown =>
      cases h
      exact .quiet rfl rfl
  | closeOutgoing =>
      cases h
      exact .quiet rfl rfl

theorem announcesOk_step (hs : AnnouncesOk s) (h : s.step act = some s') : AnnouncesOk s' := by
  intro ns a ha
  cases announceSteps_of_step h with
  | quiet hannounces hcells =>
      rw [hannounces] at ha
      rw [hcells]
      exact hs ns a ha
  | @announced new hvacant hannounces hcells =>
      rw [hannounces] at ha
      rw [hcells]
      by_cases hns : ns = new
      · subst hns
        rw [Finmap.lookup_insert] at ha
        cases ha
        exact ⟨_, List.getElem?_concat_length, rfl, rfl, rfl, .inl rfl⟩
      · rw [Finmap.lookup_insert_of_ne _ hns] at ha
        obtain ⟨c, hc, hrest⟩ := hs ns a ha
        exact ⟨c, Machine.getElem?_concat_iff.mpr (.inl hc), hrest⟩
  | @changed _ b c c' hc hannounces hcells hns hoffered =>
      rw [hannounces] at ha
      rw [hcells]
      obtain ⟨d, hd, hname, hoff⟩ := hs ns a ha
      by_cases hab : b = a
      · subst hab
        obtain rfl : c = d := by simpa [hc] using hd
        have hlt := (List.getElem?_eq_some_iff.mp hc).1
        exact ⟨c', List.getElem?_set_self hlt, hns.trans hname, hoffered hoff⟩
      · exact ⟨d, (List.getElem?_set_ne hab).trans hd, hname, hoff⟩
  | taken gone hannounces hcells =>
      obtain ⟨hne, hold⟩ := hannounces ns a ha
      obtain ⟨c, hc, hname, hoff⟩ := hs ns a hold
      refine ⟨c, hcells a c hc (hname ▸ hne) ?_, hname, hoff⟩
      intro hother
      obtain ⟨d, hd, hname', -⟩ := hs gone a hother
      obtain rfl : c = d := by simpa [hc] using hd
      exact hne (hname.symm.trans hname')

/-- Only `announce` adds to the table. -/
theorem announces_step (hact : ∀ ns, act ≠ .announce ns) (h : s.step act = some s') {ns : Tuple}
    {a : Nat} (ha : s'.announces.lookup ns = some a) : s.announces.lookup ns = some a := by
  cases announceSteps_of_step h with
  | quiet hannounces _ => rwa [hannounces] at ha
  | announced _ _ _ => exact absurd rfl (hact _)
  | changed _ hannounces _ _ _ => rwa [hannounces] at ha
  | taken gone hannounces _ => exact (hannounces ns a ha).2

end Publisher

end MoqTransport.Session
