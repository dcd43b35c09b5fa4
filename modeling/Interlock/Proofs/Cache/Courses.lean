import Interlock.Proofs.Cache.Record

/-!
# The course of a call

Whatever the interleaving, a call reaches its milestones in one of two orders: a look passes the gate, gets into
shared mode and is served at once; a change takes the gate, gets into exclusive mode, leaves the gate and is
served then. `Trail` says for each phase how far the call has come, and `Whole` what a call that is over has
behind it.
-/

namespace Interlock.Cache

variable {κ α : Type}

/-- The milestones of one call, in the order in which they were taken down. -/
def course (n : Ticket) (es : List (Mark κ α)) : List (Milestone κ α) :=
  es.filterMap fun e => if e.ticket = n then some e.what else none

/-- A look that was served the first answer returns the second. With a callback it says how the callback ended. -/
inductive Closes : Look κ → Answer α → Answer α → Prop
  | ended (key : κ) (v : Option α) (e : Ending) : Closes (.readWith key) (.found v) (ending e)
  | served (l : Look κ) (a : Answer α) : (∀ key, l ≠ .readWith key) → Closes l a a

/-- How far a call has come that is in this phase, when the cache is this map. -/
inductive Trail (m : κ → Option α) : Phase κ α → List (Milestone κ α) → Prop
  | arriving (l : Look κ) : Trail m (.arriving l) [.called (.look l)]
  | passing (l : Look κ) : Trail m (.passing l) [.called (.look l), .gated]
  | admitted (l : Look κ) : Trail m (.admitted l) [.called (.look l), .gated, .ungated]
  /-- What the callback is shown is still there. -/
  | visiting (key : κ) : Trail m (.visiting key)
      [.called (.look (.readWith key)), .gated, .ungated, .entered, .served (.look (.readWith key)) (.found (m key))]
  | unsharing {l : Look κ} {a a' : Answer α} : Closes l a a' → Trail m (.unsharing a')
      [.called (.look l), .gated, .ungated, .entered, .served (.look l) a]
  | looked {l : Look κ} {a a' : Answer α} : Closes l a a' → Trail m (.returned a')
      [.called (.look l), .gated, .ungated, .entered, .served (.look l) a, .left]
  | queueing (ch : Change κ α) : Trail m (.queueing ch) [.called (.change ch)]
  | gated (ch : Change κ α) : Trail m (.gated ch) [.called (.change ch), .gated]
  | counted (ch : Change κ α) : Trail m (.counted ch) [.called (.change ch), .gated]
  | excluding (ch : Change κ α) : Trail m (.excluding ch) [.called (.change ch), .gated, .entered]
  | uncounted (ch : Change κ α) : Trail m (.uncounted ch) [.called (.change ch), .gated, .entered]
  | changing (ch : Change κ α) : Trail m (.changing ch) [.called (.change ch), .gated, .entered, .ungated]
  | readmitting (ch : Change κ α) (a : Answer α) : Trail m (.readmitting a)
      [.called (.change ch), .gated, .entered, .ungated, .served (.change ch) a]
  | changed (ch : Change κ α) (a : Answer α) : Trail m (.returned a)
      [.called (.change ch), .gated, .entered, .ungated, .served (.change ch) a, .left]

/-- What a call that is over has behind it. -/
inductive Whole : List (Milestone κ α) → Prop
  | look {l : Look κ} {a a' : Answer α} : Closes l a a' → Whole
      [.called (.look l), .gated, .ungated, .entered, .served (.look l) a, .left, .returned a']
  | change (ch : Change κ α) (a : Answer α) : Whole
      [.called (.change ch), .gated, .entered, .ungated, .served (.change ch) a, .left, .returned a]

section
variable (n k : Ticket) (es es' : List (Mark κ α)) (ms : List (Milestone κ α))

theorem course_append : course n (es ++ es') = course n es ++ course n es' := List.filterMap_append ..

theorem course_marks : course n (ms.map (Mark.mk n)) = ms := by
  simp [course, List.filterMap_map]

theorem course_marks_other (h : n ≠ k) : course k (ms.map (Mark.mk n)) = [] := by
  simp [course, List.filterMap_map, h]

end

theorem mem_course {n : Ticket} {es : List (Mark κ α)} {what : Milestone κ α} :
    what ∈ course n es ↔ ⟨n, what⟩ ∈ es := by
  rw [course, List.mem_filterMap]
  constructor
  · rintro ⟨⟨k, what'⟩, he, h⟩
    by_cases hk : k = n
    · rw [if_pos hk] at h
      cases h
      exact hk ▸ he
    · rw [if_neg hk] at h
      cases h
  · intro h
    exact ⟨_, h, if_pos rfl⟩

theorem trail_opening (m : κ → Option α) (req : Request κ α) : Trail m req.opening [.called req] := by
  cases req with
  | look l => exact .arriving l
  | change ch => exact .queueing ch

/-- Only the trail of a callback that runs speaks of the map. -/
theorem Trail.congr {m m' : κ → Option α} {p : Phase κ α} {ms : List (Milestone κ α)} (h : Trail m p ms)
    (hv : p.isVisiting = false) : Trail m' p ms := by
  cases h with
  | arriving l => exact .arriving l
  | passing l => exact .passing l
  | admitted l => exact .admitted l
  | visiting key => cases hv
  | unsharing hc => exact .unsharing hc
  | looked hc => exact .looked hc
  | queueing ch => exact .queueing ch
  | gated ch => exact .gated ch
  | counted ch => exact .counted ch
  | excluding ch => exact .excluding ch
  | uncounted ch => exact .uncounted ch
  | changing ch => exact .changing ch
  | readmitting ch a => exact .readmitting ch a
  | changed ch a => exact .changed ch a

variable [DecidableEq κ]

/-! ## All courses at once -/

namespace Record

structure Charted (r : Record κ α) : Prop where
  trails : ∀ t n p, r.Underway t n p → Trail r.state.map p (course n r.history)
  finished : ∀ n < r.issued, (∀ t p, ¬ r.Underway t n p) → Whole (course n r.history)
  unissued : ∀ n, r.issued ≤ n → course n r.history = []

theorem charted_start (init : Table κ α) : Charted ({ state := { entries := init } } : Record κ α) where
  trails _ _ _ := nofun
  finished _ := nofun
  unissued _ _ := rfl

section
variable {r : Record κ α} {n : Ticket} (hc : r.Charted)
include hc

theorem Charted.lt_issued {what : Milestone κ α} (h : what ∈ course n r.history) : n < r.issued := by
  by_contra hn
  rw [hc.unissued n (Nat.not_lt.mp hn)] at h
  cases h

/-- Each call that was ever made is under way or over. -/
theorem Charted.standing (hn : n < r.issued) :
    (∃ t p, r.Underway t n p ∧ Trail r.state.map p (course n r.history)) ∨ Whole (course n r.history) := by
  by_cases hunderway : ∃ t p, r.Underway t n p
  · obtain ⟨t, p, hp⟩ := hunderway
    exact .inl ⟨t, p, hp, hc.trails t n p hp⟩
  · exact .inr (hc.finished n hn fun t p hp => hunderway ⟨t, p, hp⟩)

end

end Record

/-! ## Steps -/

section
variable {c c' c₁ : Cache κ α} {t : ThreadId} {p p' : Phase κ α} {before after : Option (Phase κ α)}
  {ms ms' : List (Milestone κ α)}

theorem Turn.trail (h : Turn t c p p' c₁) (ht : Trail c.map p ms) :
    Trail c₁.map p' (ms ++ milestones c.map p p') := by
  cases h with
  | arrives l => cases ht; exact .passing l
  | passes l => cases ht; exact .admitted l
  | sees l =>
    cases ht
    cases l with
    | readWith key => exact .visiting key
    | read key => exact .unsharing (.served _ _ nofun)
    | len => exact .unsharing (.served _ _ nofun)
    | isEmpty => exact .unsharing (.served _ _ nofun)
  | unshares a =>
    cases ht with
    | unsharing hc => exact .looked hc
  | queues ch => cases ht; exact .gated ch
  | counts ch => cases ht; exact .counted ch
  | excludes ch => cases ht; exact .excluding ch
  | uncounts ch => cases ht; exact .uncounted ch
  | ungates ch => cases ht; exact .changing ch
  | changes hv => cases ht; exact .readmitting _ _
  | readmits a =>
    cases ht with
    | readmitting ch => exact .changed ch a

theorem Stride.begins (h : Stride t c c' none after ms) : ∃ p, after = some p ∧ Trail c'.map p ms := by
  cases h with
  | makes req => exact ⟨_, rfl, trail_opening _ req⟩

theorem Stride.goesOn (h : Stride t c c' (some p) (some p') ms) (ht : Trail c.map p ms') :
    Trail c'.map p' (ms' ++ ms) := by
  cases h with
  | turns _ hturn hstate =>
    have htrail := hturn.trail ht
    rw [hstate]
    exact htrail
  | ends e =>
    cases ht with
    | visiting _ => simpa using .unsharing (.ended _ _ e)

theorem Stride.finishes (h : Stride t c c' (some p) none ms) (ht : Trail c.map p ms') : Whole (ms' ++ ms) := by
  cases h with
  | collects _ _ =>
    cases ht with
    | looked hc => exact .look hc
    | changed ch _ => exact .change ch _

/-- The map changes only while no callback runs. -/
theorem Sound.stride_map (hs : c.Sound) (h : Stride t c c' before after ms) {u : ThreadId} {q : Phase κ α}
    (hq : q ∈ c.calls.of u) (hv : q.isVisiting = true) : c'.map = c.map := by
  cases h with
  | makes req _ hmap => exact hmap
  | ends e _ hmap => exact hmap
  | collects _ hmap => exact hmap
  | turns hp hturn hstate =>
    subst hstate
    cases hturn with
    | changes hv' =>
      have hwriter := hs.no_writer hq hv
      rw [(hs.writer t).mpr ⟨_, hp, rfl⟩] at hwriter
      cases hwriter
    | _ => rfl

end

/-! ## Moves -/

namespace Record

section
variable {r r' : Record κ α} {t u : ThreadId} {n k : Ticket} {before after : Option (Phase κ α)}
  {ms : List (Milestone κ α)}

namespace Advance

variable (h : Advance r r' t n before after ms)
include h

theorem course_same : course n r'.history = course n r.history ++ ms := by
  rw [h.history, course_append, course_marks]

theorem course_other (hk : k ≠ n) : course k r'.history = course k r.history := by
  rw [h.history, course_append, course_marks_other n k ms hk.symm, List.append_nil]

theorem issued_le : r.issued ≤ r'.issued := by
  rcases h.was with ⟨-, -, hissued⟩ | ⟨p, -, -, hissued⟩ <;> omega

end Advance

theorem Charted.next (hc : r.Charted) (hr : r.Ticketed) (hs : r.state.Sound)
    (h : Advance r r' t n before after ms) : r'.Charted := by
  refine ⟨fun u k q hq => ?_, fun k hk hnone => ?_, fun k hk => ?_⟩
  · rcases (h.now u k q).mp hq with ⟨hq, hne⟩ | ⟨rfl, rfl, rfl⟩
    · rw [h.course_other hne]
      have htrail := hc.trails u k q hq
      cases hv : q.isVisiting with
      | true => rwa [hs.stride_map h.stride hq.mem_of hv]
      | false => exact htrail.congr hv
    · rw [h.course_same]
      rcases h.was with ⟨rfl, rfl, -⟩ | ⟨p, rfl, hp, -⟩
      · obtain ⟨q', hq', htrail⟩ := h.stride.begins
        cases hq'
        rwa [hc.unissued _ (Nat.le_refl _)]
      · exact h.stride.goesOn (hc.trails _ _ _ hp)
  · by_cases hne : k = n
    · subst hne
      cases after with
      | some q => exact absurd ((h.now t k q).mpr (.inr ⟨rfl, rfl, rfl⟩)) (hnone t q)
      | none =>
        rw [h.course_same]
        rcases h.was with ⟨rfl, rfl, -⟩ | ⟨p, rfl, hp, -⟩
        · obtain ⟨q', hq', -⟩ := h.stride.begins
          cases hq'
        · exact h.stride.finishes (hc.trails _ _ _ hp)
    · rw [h.course_other hne]
      refine hc.finished k ?_ fun u q hq => hnone u q ((h.now u k q).mpr (.inl ⟨hq, hne⟩))
      rcases h.was with ⟨-, rfl, hissued⟩ | ⟨p, -, -, hissued⟩ <;> omega
  · have hne : k ≠ n := by
      rintro rfl
      rcases h.was with ⟨-, rfl, hissued⟩ | ⟨p, -, hp, hissued⟩
      · rw [hissued] at hk
        exact absurd hk (Nat.not_succ_le_self _)
      · rw [hissued] at hk
        exact absurd (hr.lt_issued hp) (Nat.not_lt.mpr hk)
    rw [h.course_other hne]
    exact hc.unissued k (h.issued_le.trans hk)

end

theorem Reachable.charted {init : Table κ α} {r : Record κ α} (hr : r.Reachable init) : r.Charted := by
  induction hr with
  | refl => exact charted_start init
  | tail m hr h ih =>
    have hr := Reachable.ticketed hr
    obtain ⟨n, before, after, ms, hadvance⟩ := hr.advance h
    exact ih.next hr (Reachable.state ‹_›).sound hadvance

end Record

end Interlock.Cache
