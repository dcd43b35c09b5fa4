import Interlock.Proofs.Runs
import Interlock.Proofs.Panic.Worlds

/-!
# Leaving a callback with a panic

Two runs go alike until a callback ends: in the one it panics, in the other it returns, and on the way out it may
drop guards, here in a panic and there without one. From then on the moves are the same again. The worlds that the two
runs lead to are alike at every time (`Parted.alike`), so that nobody can tell them apart but the caller, who takes the
answer of the call. This may happen any number of times in the two runs.
-/

namespace Interlock.World

variable {α : Type}

/-- Two ways in which a thread leaves a callback, or a builder that fails, or drops guards on its way out. -/
inductive Twin (t : ThreadId) : Move α → Move α → Prop
  | callback (e e' : Interlock.Ending) : Twin t (.finish t (.callback e)) (.finish t (.callback e'))
  | builder {e e' : Stack.Ending α} (he : ∀ v, e ≠ .built v) (he' : ∀ v, e' ≠ .built v) :
      Twin t (.finish t (.builder e)) (.finish t (.builder e'))
  | guards (slots : List String) (panic panic' : Option String) :
      Twin t (.start t (.hierarchy (.drop slots panic))) (.start t (.hierarchy (.drop slots panic')))

/-- Two runs of the same moves but for twins. A thread that made one in the two ways is marked until it takes the
answer. -/
inductive Parted : List (Move α) → List (Move α) → Option ThreadId → Prop
  | nil : Parted [] [] none
  | both {mark : Option ThreadId} {ms ms' : List (Move α)} (m : Move α) (hm : ∀ t, mark = some t → m ≠ .collect t) :
      Parted ms ms' mark → Parted (ms ++ [m]) (ms' ++ [m]) mark
  | part {t : ThreadId} {m m' : Move α} {ms ms' : List (Move α)} :
      Twin t m m' → Parted ms ms' none → Parted (ms ++ [m]) (ms' ++ [m']) (some t)
  | rejoin {t : ThreadId} {ms ms' : List (Move α)} :
      Parted ms ms' (some t) → Parted (ms ++ [.collect t]) (ms' ++ [.collect t]) none

variable {mark : Option ThreadId} {t : ThreadId} {m m' : Move α} {ms ms' : List (Move α)}

theorem Parted.follow (h : Parted ms ms' mark) (ns : List (Move α)) (hns : ∀ t, mark = some t → .collect t ∉ ns) :
    Parted (ms ++ ns) (ms' ++ ns) mark := by
  induction ns generalizing ms ms' with
  | nil => simpa using h
  | cons n ns ih =>
    have hboth := h.both n fun t ht he => hns t ht (he ▸ List.mem_cons_self)
    have hrest := ih hboth fun t ht hmem => hns t ht (List.mem_cons_of_mem _ hmem)
    simpa using hrest

/-- A builder that fails leaves all stacks as they are. -/
theorem items_of_unbuilt {w w' : World α} {e : Stack.Ending α} (he : ∀ v, e ≠ .built v)
    (h : w.end? t (.builder e) = some w') :
    w'.stackList.map (·.items) = w.stackList.map (·.items) := by
  unfold World.end? at h
  match hs : w.sitesOf t with
  | .stack i :: _ =>
    rw [hs] at h
    obtain ⟨s, hs, h⟩ := Option.bind_eq_some_iff.mp h
    obtain ⟨s₁, hs₁, h⟩ := Option.bind_eq_some_iff.mp h
    cases h
    refine List.ext_getElem? fun j => ?_
    rw [List.getElem?_map, List.getElem?_map, List.getElem?_set']
    by_cases hj : i = j
    · subst hj
      rw [if_pos rfl, hs]
      exact congrArg some (Stack.items_of_unbuilt he hs₁)
    · rw [if_neg hj]
  | [] => rw [hs] at h; cases h
  | .queue _ :: _ => rw [hs] at h; cases h
  | .cache _ :: _ => rw [hs] at h; cases h
  | .cells :: _ => rw [hs] at h; cases h
  | .hierarchy :: _ => rw [hs] at h; cases h

section
variable [BEq α] {w w' : World α}

/-- Twin moves lead from alike worlds to worlds that differ at most in what the thread will be answered. -/
theorem Twin.alike (h : Twin t m m') (ha : Alike none w w') :
    Option.Rel (Alike (some t)) (w.move? m) (w'.move? m') := by
  cases h with
  | callback e e' => exact ha.ended t e e'
  | builder he he' => exact ha.unbuilt t he he'
  | guards slots panic panic' => exact ha.dropped t slots panic panic'

theorem Parted.alike (w : World α) (h : Parted ms ms' mark) :
    Option.Rel (Alike mark) (run? move? w ms) (run? move? w ms') := by
  -- on the last move, so that the worlds before it are alike with the mark from before it
  induction h with
  | nil => exact .some (.refl w)
  | both m hm _ ih =>
    rw [run?_append, run?_append]
    exact rel_bind ih fun _ _ ha => ha.move? m hm
  | part htwin _ ih =>
    rw [run?_append, run?_append]
    exact rel_bind ih fun _ _ ha => htwin.alike ha
  | rejoin _ ih =>
    rw [run?_append, run?_append]
    exact rel_bind ih fun _ _ ha => ha.rejoin

/-- **A panic in a callback is to everybody else the same as a return.** After any two runs that differ only in panics,
the worlds are the same but for what the one thread is answered that has left a callback in two ways and not yet taken
its answer. What anybody can do next and what he learns from it is the same too, except that one answer. A builder that
fails, with a panic or without, leaves all stacks as they are. -/
theorem panic_indistinguishable (w : World α) (h : Parted ms ms' mark) :
    Option.Rel (Alike mark) (run? move? w ms) (run? move? w ms') ∧
      (∀ m, ((run? move? w ms').bind (·.move? m)).isSome = ((run? move? w ms).bind (·.move? m)).isSome) ∧
      (∀ m, (∀ t, mark = some t → m ≠ .collect t) →
        (run? move? w ms').bind (·.report? m) = (run? move? w ms).bind (·.report? m)) ∧
      ∀ t e w', (∀ v, e ≠ .built v) → w.move? (.finish t (.builder e)) = some w' →
        w'.stackList.map (·.items) = w.stackList.map (·.items) := by
  have alike := h.alike w
  refine ⟨alike, fun m => ?_, fun m hm => ?_, fun t e w' he hw' => items_of_unbuilt he hw'⟩
  · by_cases hm : ∀ t, mark = some t → m ≠ .collect t
    · exact rel_isSome (rel_bind alike fun _ _ ha => ha.move? m hm)
    · push Not at hm
      obtain ⟨t, rfl, rfl⟩ := hm
      exact rel_isSome (rel_bind alike fun _ _ ha => ha.rejoin)
  · exact bind_eq_of_rel alike fun _ _ ha => ha.report? m hm

/-- In the callback of an entry a thread takes a lock, and still holds it when the callback ends. -/
def lapse (e : Interlock.Ending) : List (Move Nat) :=
  [.addRegistry 40 20, .addLock 10 7,
    .start 1 (.hierarchy (.registry 0 (.insert "a" 5))), .step 1 default, .step 1 default, .step 1 default,
    .step 1 default, .collect 1,
    .start 1 (.hierarchy (.registry 0 (.update "a"))), .step 1 default, .step 1 default, .step 1 default, .change 1 6,
    .start 1 (.hierarchy (.lock 1 (.guard "g"))), .step 1 default, .step 1 default, .collect 1] ++
  [.finish 1 (.callback e)] ++ [.step 1 default, .step 1 default, .step 1 default] ++ [.collect 1]

theorem panic_indistinguishable_guard_left_held :
    Parted (lapse (.panicked "no")) (lapse .finished) none ∧
      Option.Rel (Alike none) (run? move? {} (lapse (.panicked "no"))) (run? move? {} (lapse .finished)) ∧
      (run? move? {} (lapse .finished)).bind (·.report? (.perform 1 (.unlock "g"))) =
        (run? move? {} (lapse (.panicked "no"))).bind (·.report? (.perform 1 (.unlock "g"))) ∧
      (run? move? {} (lapse (.panicked "no"))).bind (·.report? (.perform 1 (.unlock "g"))) = some (.outcome .done) ∧
      (run? move? {} (lapse (.panicked "no"))).map (fun w => (w.hierarchy.ceiling 1, w.hierarchy.element? 2,
        w.hierarchy.holder? 1, w.hierarchy.holder? 2)) = some (10, some 6, some 1, some 1) := by
  have parted : Parted (lapse (.panicked "no")) (lapse .finished) none := by
    have inside := Parted.nil.follow ((lapse .finished).take 17) nofun
    have ended := Parted.part (t := 1) (.callback (.panicked "no") .finished) inside
    exact (ended.follow [.step 1 default, .step 1 default, .step 1 default] (by simp)).rejoin
  obtain ⟨alike, -, reports, -⟩ := panic_indistinguishable {} parted
  exact ⟨parted, alike, reports _ nofun, rfl, rfl⟩

end

end Interlock.World
