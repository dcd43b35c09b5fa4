import Interlock.Proofs.Cache.Order

/-!
# Writers come first

From the moment in which a change has the gate, a look that has not passed it gets into shared mode only after
the change has left exclusive mode. For the gate lets nobody through until the change has got into exclusive
mode (`Record.keeps_gate`). Before that only looks that were already past the gate get into shared mode.
-/

namespace Interlock.Cache

variable {κ α : Type}

def Milestone.atGate : Milestone κ α → Bool
  | .gated => true
  | .ungated => true
  | _ => false

def Milestone.isEntered : Milestone κ α → Bool
  | .entered => true
  | _ => false

variable [DecidableEq κ]

/-! ## Where in a run a mark was taken down -/

section
variable {c c' : Cache κ α} {t : ThreadId} {p p' : Phase κ α} {before after : Option (Phase κ α)}
  {ms : List (Milestone κ α)}

/-- Of what a move takes down only the first milestone is not that a call was served. -/
theorem Stride.tail_served (h : Stride t c c' before after ms) :
    ∀ what ∈ ms.tail, ∃ req a, what = .served req a := by
  cases h with
  | makes req => nofun
  | ends e => nofun
  | collects => nofun
  | turns hp hturn =>
    cases hturn with
    | sees l =>
      obtain ⟨a, hms, -⟩ := milestones_sight c l
      rw [hms]
      intro what hwhat
      exact ⟨_, _, List.mem_singleton.mp hwhat⟩
    | _ => nofun

/-- A call in exclusive mode keeps the others out of it, and looks out of shared mode. -/
theorem Stride.enters (h : Stride t c c' before after (.entered :: ms)) :
    (∃ l a, before = some (.admitted l) ∧ c.lock.writer = none ∧ ms = [.served (.look l) a] ∧
      Serves c.map (.look l) a c.map) ∨ ∃ ch, before = some (.counted ch) := by
  generalize hall : Milestone.entered :: ms = all at h
  cases h with
  | makes req => cases hall
  | ends e => cases hall
  | collects => cases hall
  | turns hp hturn =>
    cases hturn with
    | sees l hw =>
      obtain ⟨a, hms, hv⟩ := milestones_sight c l
      rw [hms] at hall
      cases hall
      exact .inl ⟨l, a, rfl, hw, rfl, hv⟩
    | excludes ch => exact .inr ⟨ch, rfl⟩
    | _ => cases hall

/-- The call that has the gate keeps it, and leaves no mark at the gate, or it leaves the gate. -/
theorem Stride.keeps_gate (h : Stride t c c' (some p) after ms) (hgate : p.hasGate = true) :
    (∃ p', after = some p' ∧ p'.hasGate = true ∧ ∀ what ∈ ms, what.atGate = false) ∨ .ungated ∈ ms := by
  cases h with
  | ends e => cases hgate
  | collects => cases hgate
  | turns hp hturn =>
    cases hturn with
    | passes l => exact .inr List.mem_cons_self
    | ungates ch => exact .inr List.mem_cons_self
    | counts ch => exact .inl ⟨_, rfl, rfl, by simp [milestones]⟩
    | excludes ch => exact .inl ⟨_, rfl, rfl, by simp [milestones, Milestone.atGate]⟩
    | uncounts ch => exact .inl ⟨_, rfl, rfl, by simp [milestones]⟩
    | _ => cases hgate

/-- A call leaves marks at the gate only when nobody has it, or when it has the gate itself. -/
theorem Stride.atGate (h : Stride t c c' before after ms) {what : Milestone κ α} (hwhat : what ∈ ms)
    (hgate : what.atGate = true) : c.gate.holder = none ∨
      ∃ p, before = some p ∧ c.calls.current? t = some p ∧ p.hasGate = true := by
  cases h with
  | makes req =>
    obtain rfl := List.mem_singleton.mp hwhat
    cases hgate
  | ends e => cases hwhat
  | collects =>
    obtain rfl := List.mem_singleton.mp hwhat
    cases hgate
  | turns hp hturn =>
    cases hturn with
    | arrives l hfree => exact .inl hfree
    | queues ch hfree => exact .inl hfree
    | passes l => exact .inr ⟨_, rfl, hp, rfl⟩
    | ungates ch => exact .inr ⟨_, rfl, hp, rfl⟩
    | counts ch => cases hwhat
    | uncounts ch => cases hwhat
    | sees l =>
      obtain ⟨a, hms, -⟩ := milestones_sight c l
      rw [hms] at hwhat
      rcases List.mem_pair.mp hwhat with rfl | rfl <;> cases hgate
    | _ =>
      obtain rfl := List.mem_singleton.mp hwhat
      cases hgate

end

namespace Record

section
variable {r r' : Record κ α} {t u : ThreadId} {n w : Ticket} {p : Phase κ α} {before after : Option (Phase κ α)}
  {ms : List (Milestone κ α)}

theorem Advance.first (h : Advance r r' t n before after ms) {e : Mark κ α} {xs zs : List (Mark κ α)}
    (hms : ms.map (Mark.mk n) = xs ++ e :: zs) (hserved : ∀ req a, e.what ≠ .served req a) :
    xs = [] ∧ e.ticket = n ∧ ∃ ms', ms = e.what :: ms' ∧ zs = ms'.map (Mark.mk n) := by
  cases xs with
  | nil =>
    obtain ⟨what, ms', rfl, rfl, rfl⟩ := List.map_eq_cons_iff.mp hms
    exact ⟨rfl, rfl, ms', rfl, rfl⟩
  | cons x xs =>
    obtain ⟨what, ms', rfl, rfl, hms'⟩ := List.map_eq_cons_iff.mp hms
    have he : e ∈ ms'.map (Mark.mk n) := by
      rw [hms']
      simp
    obtain ⟨what', hwhat', rfl⟩ := List.mem_map.mp he
    obtain ⟨req, a, rfl⟩ := h.stride.tail_served what' hwhat'
    exact absurd rfl (hserved req a)

/-- A mark that has been added to the history was taken down at some move. -/
theorem taken (hr : r.Ticketed) (hl : Leads next? r r') {ys zs : List (Mark κ α)} {e : Mark κ α}
    (he : r'.history = r.history ++ ys ++ e :: zs) (hserved : ∀ req a, e.what ≠ .served req a) :
    ∃ s s' t before after ms zs', Leads next? r s ∧ Advance s s' t e.ticket before after (e.what :: ms) ∧
      s.history = r.history ++ ys ∧ zs = ms.map (Mark.mk e.ticket) ++ zs' := by
  induction hl generalizing zs with
  | refl =>
    have := congrArg List.length he
    simp at this
  | @tail s s' m hl h ih =>
    obtain ⟨n, before, after, ms, hadvance⟩ := (hr.leads hl).advance h
    rw [hadvance.history] at he
    rcases List.append_eq_append_iff.mp he with ⟨xs, hhistory, hms⟩ | ⟨xs, hhistory, hzs⟩
    · obtain ⟨rfl, rfl, ms', rfl, rfl⟩ := hadvance.first hms hserved
      rw [List.append_nil] at hhistory
      exact ⟨s, s', m.thread, before, after, ms', [], hl, hadvance, hhistory.symm, by rw [List.append_nil]⟩
    · cases xs with
      | nil =>
        have hms : ms.map (Mark.mk n) = [] ++ e :: zs := hzs.symm
        obtain ⟨-, rfl, ms', rfl, rfl⟩ := hadvance.first hms hserved
        rw [List.append_nil] at hhistory
        exact ⟨s, s', m.thread, before, after, ms', [], hl, hadvance, hhistory, by rw [List.append_nil]⟩
      | cons x xs =>
        rw [List.cons_append] at hzs
        obtain ⟨rfl, hrest⟩ := List.cons.inj hzs
        obtain ⟨s₁, s₁', t, before', after', ms', zs', hl₁, hadvance₁, hhistory₁, hzs₁⟩ := ih hhistory
        refine ⟨s₁, s₁', t, before', after', ms', zs' ++ ms.map (Mark.mk n), hl₁, hadvance₁, hhistory₁, ?_⟩
        rw [hrest, hzs₁, List.append_assoc]

/-- Where a call got in: a look from past the gate while nobody was in exclusive mode, when it was served at once,
or a change that had the gate. -/
theorem entered_at (hr : r.Ticketed) (hl : Leads next? r r') {ys zs : List (Mark κ α)}
    (he : r'.history = r.history ++ ys ++ ⟨n, .entered⟩ :: zs) :
    ∃ s t, Leads next? r s ∧ s.history = r.history ++ ys ∧
      ((∃ l a zs', s.Underway t n (.admitted l) ∧ s.state.lock.writer = none ∧
        zs = ⟨n, .served (.look l) a⟩ :: zs' ∧ Serves s.state.map (.look l) a s.state.map) ∨
      ∃ ch, s.Underway t n (.counted ch)) := by
  obtain ⟨s, s', t, before, after, ms, zs', hls, hadvance, hys, rfl⟩ := taken hr hl he nofun
  refine ⟨s, t, hls, hys, ?_⟩
  rcases hadvance.stride.enters with ⟨l, a, rfl, hw, rfl, hserves⟩ | ⟨ch, rfl⟩
  · rcases hadvance.was with ⟨hnone, -, -⟩ | ⟨p, hp, hn, -⟩
    · cases hnone
    · cases hp
      exact .inl ⟨l, a, zs', hn, hw, rfl, hserves⟩
  · rcases hadvance.was with ⟨hnone, -, -⟩ | ⟨p, hp, hn, -⟩
    · cases hnone
    · cases hp
      exact .inr ⟨ch, hn⟩

/-! ## The gate -/

omit [DecidableEq κ] in
theorem Ticketed.ticket_eq (hr : r.Ticketed) (hs : r.state.Sound) {q : Phase κ α} (hn : r.Underway t n p)
    (hw : r.Underway t w q) (hp : p.isVisiting = false) (hq : q.isVisiting = false) : n = w := by
  have hcurrent := hn.current? hs hp
  obtain ⟨k, ns, htickets⟩ := hr.tickets_eq_cons hcurrent
  have hstack : r.stack t = (k, p) :: ns.zip (r.state.calls.of t).tail := by
    rw [stack, htickets, Calls.of_eq_cons hcurrent, List.zip_cons_cons, List.tail_cons]
  have hinner (j : Ticket) (q' : Phase κ α) (hj : r.Underway t j q') (hq' : q'.isVisiting = false) : j = k := by
    rw [Underway, hstack] at hj
    rcases List.mem_cons.mp hj with hj | hj
    · cases hj
      rfl
    · have hv := hs.outer t q' (List.of_mem_zip hj).2
      rw [hq'] at hv
      cases hv
  rw [hinner n p hn hp, hinner w q hw hq]

omit [DecidableEq κ] in
/-- Only one call has the gate. -/
theorem Ticketed.gate_unique (hr : r.Ticketed) (hs : r.state.Sound) {q : Phase κ α} (hn : r.Underway t n p)
    (hw : r.Underway u w q) (hp : p.hasGate = true) (hq : q.hasGate = true) : n = w := by
  have hpv := Phase.not_visiting Phase.hasGate_of_isVisiting hp
  have hqv := Phase.not_visiting Phase.hasGate_of_isVisiting hq
  have ht := (hs.gate t).mpr ⟨p, hn.current? hs hpv, hp⟩
  have hu := (hs.gate u).mpr ⟨q, hw.current? hs hqv, hq⟩
  rw [ht] at hu
  cases hu
  exact hr.ticket_eq hs hn hw hpv hqv

theorem Advance.keeps_gate (h : Advance r r' t n before after ms) (hr : r.Ticketed) (hs : r.state.Sound)
    (hw : r.Underway u w p) (hgate : p.hasGate = true) :
    (∃ p', r'.Underway u w p' ∧ p'.hasGate = true ∧ ∀ what ∈ ms, what.atGate = false) ∨
      (n = w ∧ .ungated ∈ ms) := by
  by_cases hn : n = w
  · subst hn
    rcases h.was with ⟨-, rfl, -⟩ | ⟨p', rfl, hp', -⟩
    · exact absurd hw.mem_tickets hr.notMem_issued
    · obtain ⟨rfl, rfl⟩ := hr.unique hp' hw
      rcases h.stride.keeps_gate hgate with ⟨q, rfl, hq, hms⟩ | hms
      · exact .inl ⟨q, (h.now t n q).mpr (.inr ⟨rfl, rfl, rfl⟩), hq, hms⟩
      · exact .inr ⟨rfl, hms⟩
  · refine .inl ⟨p, (h.now u w p).mpr (.inl ⟨hw, Ne.symm hn⟩), hgate, fun what hwhat => ?_⟩
    by_contra hat
    rcases h.stride.atGate hwhat (by simpa using hat) with hfree | ⟨q, rfl, hq, hqgate⟩
    · have hv := Phase.not_visiting Phase.hasGate_of_isVisiting hgate
      rw [(hs.gate u).mpr ⟨p, hw.current? hs hv, hgate⟩] at hfree
      cases hfree
    · rcases h.was with ⟨hnone, -, -⟩ | ⟨q', heq, hq', -⟩
      · cases hnone
      · cases heq
        exact hn (hr.gate_unique hs hq' hw hqgate hgate)

/-- As long as the call has not left the gate, nobody else leaves a mark there. -/
theorem keeps_gate (hr : r.Ticketed) (hs : r.state.Sound) (hl : Leads next? r r') (hw : r.Underway u w p)
    (hgate : p.hasGate = true) : ∃ es, r'.history = r.history ++ es ∧
      ((∃ p', r'.Underway u w p' ∧ p'.hasGate = true ∧ ∀ e ∈ es, e.what.atGate = false) ∨
        ⟨w, .ungated⟩ ∈ es) := by
  induction hl with
  | refl => exact ⟨[], (List.append_nil _).symm, .inl ⟨p, hw, hgate, nofun⟩⟩
  | @tail s s' m hl h ih =>
    obtain ⟨es, hhistory, hkept⟩ := ih
    have hss := hs.leads (Leads.map state (fun _ _ _ h => next?_state h) hl)
    obtain ⟨n, before, after, ms, hadvance⟩ := (hr.leads hl).advance h
    refine ⟨es ++ ms.map (Mark.mk n), by rw [hadvance.history, hhistory, List.append_assoc], ?_⟩
    rcases hkept with ⟨p', hw', hgate', hes⟩ | hleft
    · rcases hadvance.keeps_gate (hr.leads hl) hss hw' hgate' with ⟨q, hq, hqgate, hms⟩ | ⟨rfl, hms⟩
      · refine .inl ⟨q, hq, hqgate, fun e he => ?_⟩
        rcases List.mem_append.mp he with he | he
        · exact hes e he
        · obtain ⟨what, hwhat, rfl⟩ := List.mem_map.mp he
          exact hms what hwhat
      · exact .inr (List.mem_append_right _ (List.mem_map_of_mem hms))
    · exact .inr (List.mem_append_left _ hleft)

end

/-! ## A change that has the gate -/

section
variable {r : Record κ α} {n w : Ticket} {ch : Change κ α} (hc : r.Charted)
include hc

/-- A change that has left the gate has got into exclusive mode. It is there still, or it has been served and has
left. -/
theorem Charted.ungated (hcalled : .called (.change ch) ∈ course w r.history)
    (hungated : .ungated ∈ course w r.history) : .entered ∈ course w r.history ∧
      ((∃ t p, r.Underway t w p ∧ p.excludes = true) ∨
        (.left ∈ course w r.history ∧ ∃ a, .served (.change ch) a ∈ course w r.history)) := by
  rcases hc.standing (hc.lt_issued hcalled) with ⟨t, p, hp, htrail⟩ | hwhole
  · generalize course w r.history = ms at *
    cases htrail with
    | changing ch => exact ⟨by simp, .inl ⟨t, _, hp, rfl⟩⟩
    | readmitting ch a => exact ⟨by simp, .inl ⟨t, _, hp, rfl⟩⟩
    | changed ch a =>
      obtain rfl : _ = ch := by simpa using hcalled
      exact ⟨by simp, .inr ⟨by simp, a, by simp⟩⟩
    | _ => simp at hcalled hungated
  · generalize course w r.history = ms at *
    cases hwhole with
    | look hcloses => simp at hcalled
    | change ch a =>
      obtain rfl : _ = ch := by simpa using hcalled
      exact ⟨by simp, .inr ⟨by simp, a, by simp⟩⟩

theorem Charted.called_unique {req req' : Request κ α} (h : .called req ∈ course n r.history)
    (h' : .called req' ∈ course n r.history) : req = req' := by
  rcases hc.standing (hc.lt_issued h) with ⟨t, p, hp, htrail⟩ | hwhole
  · generalize course n r.history = ms at *
    cases htrail <;> simp_all
  · generalize course n r.history = ms at *
    cases hwhole <;> simp_all

end

section
variable {r s : Record κ α} {t u : ThreadId} {n w : Ticket} {p : Phase κ α} {ch : Change κ α}
  {ys : List (Mark κ α)}

theorem Charted.course_of_awaits (hc : r.Charted) (hw : r.Underway u w p) (hawaits : p.AwaitsMode ch) :
    course w r.history = [.called (.change ch), .gated] := by
  have htrail := hc.trails u w p hw
  generalize course w r.history = ms at *
  rcases hawaits with rfl | rfl
  · cases htrail
    rfl
  · cases htrail
    rfl

theorem Charted.course_of_admitted {l : Look κ} (hc : r.Charted) (h : r.Underway t n (.admitted l)) :
    course n r.history = [.called (.look l), .gated, .ungated] := by
  have htrail := hc.trails t n _ h
  generalize course n r.history = ms at *
  cases htrail
  rfl

omit [DecidableEq κ] in
theorem mem_added {what : Milestone κ α} (h : what ∈ course n s.history) (hs : s.history = r.history ++ ys)
    (hnot : what ∉ course n r.history) : ⟨n, what⟩ ∈ ys := by
  rw [hs, course_append, List.mem_append] at h
  exact mem_course.mp (h.resolve_left hnot)

theorem Reachable.replay_served {init : Table κ α} (hr : r.Reachable init) {req : Request κ α} {a : Answer α}
    (h : ⟨n, .served req a⟩ ∈ r.history) : ∃ xs₁ xs₂ m₁ m₂, r.history = xs₁ ++ ⟨n, .served req a⟩ :: xs₂ ∧
      Replay init.get? xs₁ m₁ ∧ Serves m₁ req a m₂ ∧ Replay m₂ xs₂ r.state.map := by
  obtain ⟨xs₁, xs₂, hhistory⟩ := List.append_of_mem h
  have hreplay := hr.replay
  rw [hhistory, replay_append] at hreplay
  obtain ⟨m₁, hbefore, m₂, hplays, hafter⟩ := hreplay
  cases hplays with
  | serves _ hserves => exact ⟨xs₁, xs₂, m₁, m₂, hhistory, hbefore, hserves, hafter⟩
  | rests hrests => exact absurd rfl (hrests req a)

variable {init : Table κ α} (hr : r.Reachable init) (hl : Leads next? r s) (hs : s.history = r.history ++ ys)
  (hw : r.Underway u w p) (hawaits : p.AwaitsMode ch)
include hr hl hs hw hawaits

/-- Either the change has the gate still and nobody has left a mark there, or it has left the gate and got into
exclusive mode, where it is still or which it has left. -/
theorem Reachable.change_later :
    (∃ p', s.Underway u w p' ∧ p'.hasGate = true ∧ ∀ e ∈ ys, e.what.atGate = false) ∨
    (⟨w, .entered⟩ ∈ ys ∧ (s.state.lock.writer ≠ none ∨
      (⟨w, .left⟩ ∈ ys ∧ ∃ a, ⟨w, .served (.change ch) a⟩ ∈ s.history))) := by
  obtain ⟨es, hes, hkept⟩ := keeps_gate hr.ticketed (Reachable.state hr).sound hl hw hawaits.hasGate
  obtain rfl : es = ys := List.append_cancel_left (hes.symm.trans hs)
  rcases hkept with hkept | hungated
  · exact .inl hkept
  · have hlater : s.Reachable init := Leads.trans hr hl
    have hcourse := hr.charted.course_of_awaits hw hawaits
    have hcalled : .called (.change ch) ∈ course w s.history := by
      rw [hs, course_append, hcourse]
      simp
    have hpassed : .ungated ∈ course w s.history := by
      rw [mem_course, hs]
      exact List.mem_append_right _ hungated
    obtain ⟨hentered, hstage⟩ := hlater.charted.ungated hcalled hpassed
    refine .inr ⟨mem_added hentered hs (by rw [hcourse]; simp), ?_⟩
    rcases hstage with ⟨t, p', hp', hexcludes⟩ | ⟨hleft, a, hserved⟩
    · left
      have hsound := (Reachable.state hlater).sound
      have hv := Phase.not_visiting Phase.excludes_of_isVisiting hexcludes
      rw [(hsound.writer t).mpr ⟨p', hp'.current? hsound hv, hexcludes⟩]
      nofun
    · right
      exact ⟨mem_added hleft hs (by rw [hcourse]; simp), a, mem_course.mp hserved⟩

end

/-- The calls that have passed the gate and have still to get into shared mode. -/
def admitted (r : Record κ α) : Set Ticket := {n | ∃ t l, r.Underway t n (.admitted l)}

section
variable {init : Table κ α} {r r' : Record κ α} {u : ThreadId} {n w : Ticket} {p : Phase κ α} {ch : Change κ α}
  {ys zs : List (Mark κ α)} (hr : r.Reachable init) (hl : Leads next? r r')
  (he : r'.history = r.history ++ ys ++ ⟨n, .entered⟩ :: zs) (hw : r.Underway u w p) (hawaits : p.AwaitsMode ch)
include hr hl he hw hawaits

/-- A look that has not passed the gate yet gets in after the change has left. -/
theorem Reachable.enters_after {l : Look κ} (hlook : ⟨n, .called (.look l)⟩ ∈ r'.history)
    (hungated : ⟨n, .ungated⟩ ∉ r.history) : ⟨w, .left⟩ ∈ ys ∧
      ∃ xs₁ xs₂ zs' a b m₁ m₂ m₃, r.history ++ ys = xs₁ ++ ⟨w, .served (.change ch) a⟩ :: xs₂ ∧
        zs = ⟨n, .served (.look l) b⟩ :: zs' ∧ Replay init.get? xs₁ m₁ ∧ Serves m₁ (.change ch) a m₂ ∧
        Replay m₂ xs₂ m₃ ∧ Serves m₃ (.look l) b m₃ := by
  obtain ⟨s, t, hls, hys, hentered⟩ := entered_at hr.ticketed hl he
  have hlater : s.Reachable init := Leads.trans hr hls
  have hlast : r'.Reachable init := Leads.trans hr hl
  have hgrows {what : Milestone κ α} (h : what ∈ course n s.history) : what ∈ course n r'.history := by
    rw [he, ← hys, course_append]
    exact List.mem_append_left _ h
  have hcalled := mem_course.mpr hlook
  rcases hentered with ⟨l', b, zs', hn, hwriter, hzs, hserves⟩ | ⟨ch', hn⟩
  · have hcourse := hlater.charted.course_of_admitted hn
    cases hlast.charted.called_unique (hgrows (by rw [hcourse]; exact List.mem_cons_self)) hcalled
    have hpassed : ⟨n, .ungated⟩ ∈ ys := mem_added (by rw [hcourse]; simp) hys fun h => hungated (mem_course.mp h)
    rcases hr.change_later hls hys hw hawaits with ⟨p', -, -, hmarks⟩ | ⟨-, hstage⟩
    · cases hmarks _ hpassed
    · obtain ⟨hleft, a, hserved⟩ := hstage.resolve_left (not_not.mpr hwriter)
      obtain ⟨xs₁, xs₂, m₁, m₂, hhistory, hbefore, hchange, hafter⟩ := hlater.replay_served hserved
      rw [hys] at hhistory
      exact ⟨hleft, xs₁, xs₂, zs', a, b, m₁, m₂, s.state.map, hhistory, hzs, hbefore, hchange, hafter, hserves⟩
  · have hcourse := hlater.charted.course_of_awaits hn (.inr rfl)
    cases hlast.charted.called_unique (hgrows (by rw [hcourse]; exact List.mem_cons_self)) hcalled

/-- Who gets in before the change was past the gate before the change took it. -/
theorem Reachable.enters_before (hbefore : ⟨w, .entered⟩ ∉ ys) (hne : n ≠ w) : n ∈ r.admitted := by
  obtain ⟨s, t, hls, hys, hentered⟩ := entered_at hr.ticketed hl he
  have hlater : s.Reachable init := Leads.trans hr hls
  obtain ⟨p', hw', hgate, hmarks⟩ : ∃ p', s.Underway u w p' ∧ p'.hasGate = true ∧ ∀ e ∈ ys, e.what.atGate = false :=
    (hr.change_later hls hys hw hawaits).resolve_right fun h => hbefore h.1
  rcases hentered with ⟨l, b, zs', hn, hwriter, hzs, hserves⟩ | ⟨ch', hn⟩
  · have hcourse := hlater.charted.course_of_admitted hn
    have hpassed : .ungated ∈ course n r.history := by
      by_contra hnot
      have hadded : ⟨n, .ungated⟩ ∈ ys := mem_added (by rw [hcourse]; simp) hys hnot
      cases hmarks _ hadded
    rw [hys, course_append] at hcourse
    rcases hr.charted.standing (hr.charted.lt_issued hpassed) with ⟨v, q, hq, htrail⟩ | hwhole
    · generalize course n r.history = ms at *
      cases htrail with
      | admitted l' => exact ⟨v, l', hq⟩
      | _ => simp at hcourse hpassed
    · generalize course n r.history = ms at *
      cases hwhole <;> simp at hcourse
  · exact absurd (hlater.ticketed.gate_unique (Reachable.state hlater).sound hn hw' rfl hgate) hne

end

/-! ## How many get in -/

omit [DecidableEq κ] in
theorem count_entrants (n : Ticket) (es : List (Mark κ α)) :
    (entrants es).count n = (course n es).countP Milestone.isEntered := by
  induction es with
  | nil => rfl
  | cons e es ih =>
    have hentrants : entrants (e :: es) = entrants [e] ++ entrants es := entrants_append [e] es
    have hcourse : course n (e :: es) = course n [e] ++ course n es := course_append n [e] es
    have hone : (entrants [e]).count n = (course n [e]).countP Milestone.isEntered := by
      obtain ⟨k, what⟩ := e
      by_cases hk : k = n
      · cases what <;> simp [entrants, course, Milestone.isEntered, hk]
      · cases what <;> simp [entrants, course, hk]
    rw [hentrants, hcourse, List.count_append, List.countP_append, hone, ih]

theorem Charted.nodup_entrants {r : Record κ α} (hc : r.Charted) : (entrants r.history).Nodup := by
  rw [List.nodup_iff_count_le_one]
  intro n
  rw [count_entrants]
  by_cases hn : n < r.issued
  · rcases hc.standing hn with ⟨t, p, hp, htrail⟩ | hwhole
    · generalize course n r.history = ms at *
      cases htrail <;> simp [List.countP_cons, Milestone.isEntered]
    · generalize course n r.history = ms at *
      cases hwhole <;> simp [List.countP_cons, Milestone.isEntered]
  · rw [hc.unissued n (Nat.not_lt.mp hn)]
    exact Nat.zero_le 1

omit [DecidableEq κ] in
theorem Ticketed.finite_admitted {r : Record κ α} (hr : r.Ticketed) : r.admitted.Finite := by
  refine (Set.finite_lt_nat r.issued).subset ?_
  rintro n ⟨t, l, hn⟩
  exact hr.lt_issued hn

omit [DecidableEq κ] in
theorem mem_entrants {n : Ticket} {es : List (Mark κ α)} (h : n ∈ entrants es) :
    ∃ ys zs, es = ys ++ ⟨n, .entered⟩ :: zs := by
  obtain ⟨⟨k, what⟩, he, hk⟩ := List.mem_filterMap.mp h
  cases what with
  | entered =>
    cases hk
    exact List.append_of_mem he
  | _ => cases hk

end Record

/-- **Writers come first.** Let a change have the gate and not yet be in exclusive mode, and let the run go on in any
way. A look that had not passed the gate then gets into shared mode only after the change has left exclusive mode,
and what it is served it is served from a map that the change has been made to. And as long as the change has not
got in, only looks get in that were past the gate already, so no more than there were of these, however many
calls are made. -/
theorem writer_preference {init : Table κ α} {r r' : Record κ α} (hr : r.Reachable init)
    (hl : Leads Record.next? r r') {t : ThreadId} {w : Ticket} {p : Phase κ α} {ch : Change κ α}
    (hw : r.Underway t w p) (hawaits : p.AwaitsMode ch) {es : List (Mark κ α)}
    (hes : r'.history = r.history ++ es) :
    (∀ n l ys zs, es = ys ++ ⟨n, .entered⟩ :: zs → ⟨n, .called (.look l)⟩ ∈ r'.history →
      ⟨n, .ungated⟩ ∉ r.history → ⟨w, .left⟩ ∈ ys ∧
        ∃ xs₁ xs₂ zs' a b m₁ m₂ m₃, r.history ++ ys = xs₁ ++ ⟨w, .served (.change ch) a⟩ :: xs₂ ∧
          zs = ⟨n, .served (.look l) b⟩ :: zs' ∧ Replay init.get? xs₁ m₁ ∧ Serves m₁ (.change ch) a m₂ ∧
          Replay m₂ xs₂ m₃ ∧ Serves m₃ (.look l) b m₃) ∧
    (⟨w, .entered⟩ ∉ es → (∀ n ∈ entrants es, n ∈ r.admitted) ∧ (entrants es).length ≤ r.admitted.ncard) := by
  constructor
  · intro n l ys zs hsplit hlook hungated
    rw [hsplit, ← List.append_assoc] at hes
    exact hr.enters_after hl hes hw hawaits hlook hungated
  · intro hnot
    have hadmitted : ∀ n ∈ entrants es, n ∈ r.admitted := by
      intro n hn
      obtain ⟨ys, zs, rfl⟩ := Record.mem_entrants hn
      rw [← List.append_assoc] at hes
      refine hr.enters_before hl hes hw hawaits (fun h => hnot (List.mem_append_left _ h)) ?_
      rintro rfl
      exact hnot (by simp)
    have hnodup : (entrants es).Nodup := by
      have hall := (Record.Reachable.charted (Leads.trans hr hl)).nodup_entrants
      rw [hes, entrants_append] at hall
      exact hall.of_append_right
    refine ⟨hadmitted, ?_⟩
    calc (entrants es).length = ((entrants es).toFinset : Set Ticket).ncard := by
          rw [Set.ncard_coe_finset, List.toFinset_card_of_nodup hnodup]
      _ ≤ r.admitted.ncard := by
          refine Set.ncard_le_ncard (fun n hn => hadmitted n ?_) hr.ticketed.finite_admitted
          exact List.mem_toFinset.mp hn

/-- One look is past the gate and another one stands before it when a writer takes it. -/
def readerOnEachSide : List (Move Nat Nat) :=
  [.start 1 (.look (.read 0)), .step 1 default, .step 1 default, .start 2 (.change (.write 0 5)), .step 2 default,
    .start 3 (.look (.read 0))]

def firstReaderEnters : List (Move Nat Nat) := [.step 2 default, .step 1 default]

def writerGoesThrough : List (Move Nat Nat) :=
  [.step 1 default, .step 2 default, .step 2 default, .step 2 default, .step 3 default, .step 3 default,
    .step 2 default, .step 2 default, .step 3 default]

theorem writer_preference_reader_on_each_side : ∃ r r₁ r₂ : Record Nat Nat, ∃ es ys zs,
    r.Reachable {} ∧ r.stack 2 = [(1, .gated (.write 0 5))] ∧ Leads Record.next? r r₁ ∧ Leads Record.next? r₁ r₂ ∧
    (r₁.history = r.history ++ es ∧ entrants es = [0] ∧ 0 ∈ r.admitted ∧
      (entrants es).length ≤ r.admitted.ncard) ∧
    r₂.history = r.history ++ (ys ++ ⟨2, .entered⟩ :: zs) ∧ ⟨1, .left⟩ ∈ ys ∧
    zs = [⟨2, .served (.look (.read 0)) (.found (some 5))⟩] := by
  obtain ⟨r, r₁, r₂, hrun, hrun₁, hrun₂, hstack, hhistory, hhistory₁, hhistory₂⟩ : ∃ r r₁ r₂ : Record Nat Nat,
      run? Record.next? { state := { entries := {} } } readerOnEachSide = some r ∧
      run? Record.next? r firstReaderEnters = some r₁ ∧ run? Record.next? r₁ writerGoesThrough = some r₂ ∧
      r.stack 2 = [(1, .gated (.write 0 5))] ∧
      r.history = [⟨0, .called (.look (.read 0))⟩, ⟨0, .gated⟩, ⟨0, .ungated⟩, ⟨1, .called (.change (.write 0 5))⟩,
        ⟨1, .gated⟩, ⟨2, .called (.look (.read 0))⟩] ∧
      r₁.history = r.history ++ [⟨0, .entered⟩, ⟨0, .served (.look (.read 0)) (.found none)⟩] ∧
      r₂.history = r.history ++ ([⟨0, .entered⟩, ⟨0, .served (.look (.read 0)) (.found none)⟩, ⟨0, .left⟩,
        ⟨1, .entered⟩, ⟨1, .ungated⟩, ⟨2, .gated⟩, ⟨2, .ungated⟩,
        ⟨1, .served (.change (.write 0 5)) (.found none)⟩, ⟨1, .left⟩] ++
        ⟨2, .entered⟩ :: [⟨2, .served (.look (.read 0)) (.found (some 5))⟩]) :=
    ⟨_, _, _, rfl, rfl, rfl, rfl, rfl, rfl, rfl⟩
  have hr : r.Reachable {} := Leads.refl.run _ hrun
  have hl₁ : Leads Record.next? r r₁ := Leads.refl.run _ hrun₁
  have hl₂ : Leads Record.next? r₁ r₂ := Leads.refl.run _ hrun₂
  have hw : r.Underway 2 1 (.gated (.write 0 5)) := by
    rw [Record.Underway, hstack]
    exact List.mem_cons_self
  obtain ⟨hadmitted, hcard⟩ := (writer_preference hr hl₁ hw (.inl rfl) hhistory₁).2 (by simp)
  have hafter := (writer_preference hr (hl₁.trans hl₂) hw (.inl rfl) hhistory₂).1 2 (.read 0) _ _ rfl
    (by rw [hhistory₂, hhistory]; simp) (by rw [hhistory]; simp)
  exact ⟨r, r₁, r₂, _, _, _, hr, hstack, hl₁, hl₂, ⟨hhistory₁, rfl, hadmitted 0 (by simp [entrants]), hcard⟩,
    hhistory₂, hafter.1, rfl⟩

end Interlock.Cache
