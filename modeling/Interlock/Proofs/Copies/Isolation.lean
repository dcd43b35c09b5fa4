import Interlock.Proofs.Copies.Copying
import Interlock.Proofs.Exhaustion.Traceless

/-!
# Copies are isolated

A queue or a stack that is cloned, or a queue that is taken, goes on as if the call had not been made, but that a take
leaves it empty, and the new object goes on as one that was built from the elements that the call found. Neither has
part in what is done with the other. Who sleeps in a queue that is taken goes on sleeping there, and is woken and served
by what is pushed there later.
-/

namespace Interlock

variable {α : Type}

namespace Queue

/-- What those can count on who sleep in a queue. -/
structure Serving (q : Queue α) : Prop where
  /-- A push that finds room adds its element and wakes one of them, if there is one. -/
  push : ∀ t v env q', q.calls.current? t = some (.entering (.push v)) → q.step? env t = some q' →
    q'.calls.current? t = some (.leaving .done) → q'.items = q.items ++ [v] ∧
      (q.sleepers = [] ∨ ∃ u r, q.calls.current? u = some (.asleep r) ∧ q'.calls.current? u = some (.woken r))
  /-- Once woken they get the element in front, or sleep on if there is none. -/
  woken : ∀ u r env q', q.calls.current? u = some (.woken r) → q.step? env u = some q' →
    (∃ v, q.items = v :: q'.items ∧ q'.calls.current? u = some (.leaving (.value v))) ∨
      q.items = [] ∧ q'.calls.current? u = some (.asleep r)
  /-- When nothing moves any more, they sleep only if there is no element. -/
  rest : q.Quiescent → q.sleepers ≠ [] → q.items = []

section
variable {q : Queue α} (hs : q.Sound)
include hs

theorem sleepers_eq_nil (h : ∀ t r, q.calls.current? t ≠ some (.asleep r)) : q.sleepers = [] := by
  refine List.eq_nil_iff_forall_not_mem.mpr fun t ht => ?_
  obtain ⟨r, hr⟩ := mem_sleepers.mp ht
  exact h t r (hs.single.mem_of.mp hr)

theorem asleep_of_sleepers (h : q.sleepers ≠ []) : q.asleep.Nonempty := by
  obtain ⟨t, ht⟩ := List.exists_mem_of_ne_nil _ h
  obtain ⟨r, hr⟩ := mem_sleepers.mp ht
  exact ⟨t, r, hs.single.mem_of.mp hr⟩

theorem Sound.serving : q.Serving where
  push t v env q' ht h hdone := by
    cases step_change h with
    | leaves _ hl => cases ht.symm.trans hl
    | @acts _ r _ _ hw hfree hturn =>
      obtain rfl : r = .push v := by
        obtain hw | hw := hw
        · cases ht.symm.trans hw
          rfl
        · cases ht.symm.trans hw
      cases hturn with
      | sleeps hwaits _ => cases hwaits
      | serves hserves hsuffix =>
        generalize q.items = items at hserves hsuffix
        cases hserves with
        | push _ _ => simpa using hsuffix.length_le
        | pushRefused _ _ f => simp at hdone
      | announces v pick =>
        have hsingle : ({ q with items := q.items ++ [v] }.seize t).calls.Single := hs.single
        obtain ⟨hnone, he⟩ | ⟨u, r, hu, he⟩ := notify_cases hsingle pick
        · rw [he]
          exact ⟨rfl, .inl (sleepers_eq_nil hs hnone)⟩
        · rw [he]
          have hut : t ≠ u := by
            rintro rfl
            cases ht.symm.trans hu
          exact ⟨rfl, .inr ⟨u, r, hu, by simp [hut]⟩⟩
  woken u r env q' hu h := by
    have hwaits := hs.waits u r (.inr hu)
    cases step_change h with
    | leaves _ hl => cases hu.symm.trans hl
    | @acts _ r' _ _ hw hfree hturn =>
      obtain rfl : r' = r := by
        obtain hw | hw := hw
        · cases hu.symm.trans hw
        · cases hu.symm.trans hw
          rfl
      cases hturn with
      | sleeps _ hempty => exact .inr ⟨hempty, by simp⟩
      | announces v pick => cases hwaits
      | serves hserves _ =>
        left
        generalize hitems : q.items = items at hserves
        cases hserves with
        | waitPop v rest => exact ⟨v, rfl, by simp⟩
        | waitPopInto out v rest => exact ⟨v, rfl, by simp⟩
        | _ => cases hwaits
  rest hq hsleepers := by
    have hcovered := hs.covered (asleep_of_sleepers hs hsleepers)
    have hnone : q.woken = ∅ := by
      rw [Set.eq_empty_iff_forall_notMem]
      rintro u ⟨r, hu⟩
      exact hq.not_wants hs u r (.inr hu)
    rw [hnone, Set.ncard_empty] at hcovered
    exact List.length_eq_zero_iff.mp (Nat.le_zero.mp hcovered)

end

end Queue

namespace World

/-! ## The thread stays in its call -/

/-- The innermost call of the thread is on the collection at this place, and copies it. -/
structure Inside (t : ThreadId) (s : Site) (w : World α) : Prop where
  site : (w.sitesOf t).head? = some s
  phase : ∃ c p, w.collection? s = some c ∧ c.current? t = some p ∧ p.Copies

section
variable {w w' : World α} {t : ThreadId} {s : Site} {c : Collection α} {m : Move α} {call : Call α}

theorem Reachable.collection [BEq α] (hw : w.Reachable) (hc : w.collection? s = some c) : c.Sound := by
  obtain ⟨i, q, rfl, hq, rfl⟩ | ⟨i, k, rfl, hk, rfl⟩ := collection?_eq_some hc
  · obtain ⟨init, hr⟩ := hw.sound.queueAt i q hq
    exact hr.sound
  · obtain ⟨init, hr⟩ := hw.sound.stackAt i k hk
    exact hr.sound

/-- No callback runs in a call that copies. -/
theorem Inside.grip? (hi : Inside t s w) : w.grip? t = none := by
  obtain ⟨outer, hs⟩ := List.head?_eq_some_iff.mp hi.site
  obtain ⟨c, p, hc, hp, hcopies⟩ := hi.phase
  obtain ⟨i, q, rfl, hq, rfl⟩ | ⟨i, k, rfl, hk, rfl⟩ := collection?_eq_some hc
  · simp only [World.grip?, hs]
  · rw [grip?_stack hs hk]
    obtain ⟨p, hcur, rfl⟩ := Option.map_eq_some_iff.mp hp
    cases p with
    | building top => obtain ⟨call, h⟩ | ⟨a, h⟩ := hcopies <;> cases h
    | _ => simp [Stack.top?, hcur]

theorem Inside.move [BEq α] (hi : Inside t s w) (hw : w.Reachable) (h : w.move? m = some w') (hopen : m ≠ .collect t) :
    Inside t s w' := by
  obtain ⟨outer, hs⟩ := List.head?_eq_some_iff.mp hi.site
  obtain ⟨c, p, hc, hp, hcopies⟩ := hi.phase
  by_cases ht : m.thread? = some t
  · have hsites : w'.sitesOf t = w.sitesOf t := sitesOf_own h ht (by simp [hs]) hi.grip? hopen
    refine ⟨hsites ▸ hi.site, ?_⟩
    by_cases hsite : m.site? w = some s
    · obtain ⟨c', hc', hmove⟩ := collection?_on hc hsite h
      -- a call that waits for the mutex gets it, and one that has its answer keeps it
      obtain ⟨call, hwaits⟩ | ⟨a, ha⟩ := hcopies
      · obtain ⟨_, p', -, -, -, hp', ha', -⟩ := Collection.own_waits ht hopen hmove hp hwaits
        exact ⟨c', p', hc', hp', .inr ⟨_, ha'⟩⟩
      · obtain ⟨_, p', -, hp', ha', -⟩ := Collection.own_has ht hopen hmove hp ha
        exact ⟨c', p', hc', hp', .inr ⟨_, ha'⟩⟩
    · exact ⟨c, p, collection?_off hc hsite h, hp, hcopies⟩
  · refine ⟨((evolves h).sitesOf t ht).symm ▸ hi.site, ?_⟩
    by_cases hsite : m.site? w = some s
    · obtain ⟨c', hc', hmove⟩ := collection?_on hc hsite h
      exact ⟨c', p, hc', (Collection.others (hw.collection hc) hmove ht hp hcopies).2.2, hcopies⟩
    · exact ⟨c, p, collection?_off hc hsite h, hp, hcopies⟩

theorem Inside.run [BEq α] {ms : List (Move α)} (hi : Inside t s w) (hw : w.Reachable)
    (h : run? World.move? w ms = some w') (hopen : .collect t ∉ ms) : Inside t s w' := by
  induction ms generalizing w with
  | nil => exact Option.some.inj h ▸ hi
  | cons m ms ih =>
    obtain ⟨w₁, hm, h⟩ := Option.bind_eq_some_iff.mp h
    have hne : m ≠ .collect t := fun he => hopen (he ▸ List.mem_cons_self)
    exact ih (hi.move hw hm hne) (hw.tail m hm) h fun hmem => hopen (List.mem_cons_of_mem _ hmem)

def Collection.Serving : Collection α → Prop
  | .queue q => q.Serving
  | .stack _ => True

theorem Collection.Sound.serving (hs : c.Sound) : c.Serving := by
  cases c with
  | queue q => exact Queue.Sound.serving hs
  | stack k => trivial

/-- At this place of the world stands what the moves of the log make of the collection. What is done with it next is
what can be done with it alone, to the same effect and with the same report. What is done elsewhere leaves it as it is,
with all who sleep in it, and these are served by what is pushed here. -/
structure Lives [BEq α] (w : World α) (s : Site) (c : Collection α) (log : Log α) (d : Collection α) : Prop where
  stands : w.collection? s = some d
  made : Trace Collection.Takes c log d
  here : ∀ m : Move α, m.site? w = some s → (w.move? m).bind (·.collection? s) = d.move? m ∧ w.report? m = d.report? m
  elsewhere : ∀ (m : Move α) (w' : World α), m.site? w ≠ some s → w.move? m = some w' → w'.collection? s = some d
  serving : d.Serving

/-- A new object with the same elements. -/
def Collection.copy : Collection α → Collection α
  | .queue q => .queue (.ofList q.items)
  | .stack k => .stack (.ofList k.toList)

section
variable [BEq α] {log : Log α} {ms : List (Move α)}

theorem Lives.after {c₀ d : Collection α} {log₀ : Log α} (hl : Lives w s c log d)
    (h : Trace Collection.Takes c₀ log₀ c) : Lives w s c₀ (log₀ ++ log) d :=
  { hl with made := trace_append.mpr ⟨c, h, hl.made⟩ }

end

end

/-- Two consumers fall asleep, and an element is pushed, which wakes the first of them. -/
def stirred : List (Move Nat) :=
  [.addQueue [], .start 2 (.queue 0 .waitPop), .step 2 default, .start 3 (.queue 0 .waitPop), .step 3 default,
    .start 1 (.queue 0 (.push 5)), .step 1 default, .step 1 default, .collect 1]

/-- The queue is taken before the woken consumer looks, and it falls asleep again. -/
def taking : List (Move Nat) := [.step 1 default, .step 1 default, .step 2 default]

/-- An element is pushed on what was taken, and one on the queue, which a sleeper gets. -/
def onBoth : List (Move Nat) :=
  [.start 4 (.queue 1 (.push 6)), .step 4 default, .step 4 default, .collect 4, .start 4 (.queue 0 (.push 9)),
    .step 4 default, .step 4 default, .step 2 default, .step 2 default]

def toTake : List (Move Nat) := stirred ++ [.start 1 (.queue 0 .take)]

def taken : List (Move Nat) := toTake ++ taking

def parted : List (Move Nat) := taken ++ [.collect 1, .addQueue [5]] ++ onBoth

end World

end Interlock
