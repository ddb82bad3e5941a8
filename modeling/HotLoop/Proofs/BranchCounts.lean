import HotLoop.Proofs.Replay

/-!
# Counts of branches

An open trace numbers its branches, and a loop that runs counts those that it has checked. Neither
count passes the trace limit: with a limit below the last number of 32 bits, the next branch can
always be counted in 32 bits.
-/

namespace HotLoop

open Code Trace

namespace Mode

def branches : Mode → Nat
  | .tracingLoop r => r.branches
  | .tracingBridge _ _ r => r.branches
  | .running _ _ n => n
  | _ => 0

/-- A loop that runs has checked no more branches than its trace has, which keeps to the limit. -/
def Paced (limit : Nat) (m : Mode) : Prop :=
  ∀ h e n, m.loop? = some (h, e, n) → n ≤ e.length ∧ e.length ≤ limit

variable {limit : Nat} {m : Mode}

theorem paced_of_loop? (hm : m.loop? = none) : m.Paced limit := by
  intro h e n hl
  rw [hm] at hl
  cases hl

theorem branches_le (hg : m.Grows limit) (hp : m.Paced limit) : m.branches ≤ limit := by
  have htraced : ∀ r, m.recording? = some r → r.branches ≤ limit := by
    intro r hr
    obtain ⟨hgrown, hlen⟩ := hg r hr
    rw [← hgrown.length_directions]
    exact (List.length_filterMap_le _ _).trans hlen
  cases m with
  | tracingLoop r => exact htraced r rfl
  | tracingBridge p i r => exact htraced r rfl
  | running h e n =>
      obtain ⟨hn, he⟩ := hp h e n rfl
      exact hn.trans he
  | interpreting => exact Nat.zero_le limit
  | runningBridge b => exact Nat.zero_le limit

end Mode

/-- The jump at the end is no branch. -/
theorem Trace.WellFormed.length_directions {limit : Nat} {loop : Bool} {g : Guards} {ops : List Op}
    (h : WellFormed limit loop g ops) : (directions ops).length ≤ limit := by
  obtain ⟨body, rfl⟩ := List.getLast?_eq_some_iff.1 h.last
  have hlen := h.length
  rw [List.length_append] at hlen
  have hbody : directions (body ++ [.jump]) = directions body := filterMap_concat_of_none rfl
  rw [hbody]
  exact (List.length_filterMap_le _ _).trans (Nat.le_of_succ_le_succ hlen)

namespace Frame

variable {f : Frame} {g : Settings} {n limit : Nat}

/-- What ends outside of loops where it began there is to be looked at in a loop that runs. -/
theorem paced_op {α : Type} {op : EStateM Fault Frame α}
    (houtside : f.mode.loop? = none → EndsOutside (op f))
    (hrunning : ∀ h e n, f.mode = .running h e n →
      Ends (fun _ f' => f'.mode.Paced limit) (fun _ f' => f'.mode.Paced limit) (op f)) :
    Ends (fun _ f' => f'.mode.Paced limit) (fun _ f' => f'.mode.Paced limit) (op f) := by
  cases hl : f.mode.loop? with
  | none =>
      exact (houtside hl).imp (fun _ _ ho => Mode.paced_of_loop? ho)
        fun _ _ ho => Mode.paced_of_loop? ho
  | some l => exact hrunning _ _ _ (Mode.eq_of_loop? hl)

theorem paced_getField (h : f.mode.Paced limit) (l : Location) :
    Ends (fun _ f' => f'.mode.Paced limit) (fun _ f' => f'.mode.Paced limit) (getField l f) := by
  refine paced_op (lasting_outside.getField l) fun j e i hm => ?_
  obtain ⟨r, hr⟩ := getField_of_idle (by rw [hm]; rfl) l
  rw [hr]
  exact h

theorem paced_setField (hp : f.Poised g n) (h : f.mode.Paced limit) (l : Location) (value : Int) :
    Ends (fun _ f' => f'.mode.Paced limit) (fun _ f' => f'.mode.Paced limit)
      (setField l value f) := by
  refine paced_op (lasting_outside.setField l value) fun j e i hm => ?_
  obtain ⟨r, f', gone, hr, hf'⟩ := setField_of_idle hp (by rw [hm]; rfl) l value
  rw [hr]
  change f'.mode.Paced limit
  rw [hf'.mode, modeWithout]
  split_ifs
  · exact Mode.paced_of_loop? rfl
  · exact h

theorem paced_branch (h : f.mode.Paced limit) (cond : Bool) :
    Ends (fun _ f' => f'.mode.Paced limit) (fun _ f' => f'.mode.Paced limit) (branch cond f) := by
  refine paced_op (lasting_outside.branch cond) fun j e i hm => ?_
  rw [branch_eq, hm]
  dsimp only
  cases he : e[i]? with
  | none => exact Mode.paced_of_loop? rfl
  | some direction =>
      dsimp only
      split_ifs
      · rintro _ _ _ ⟨⟩
        rw [hm] at h
        exact ⟨(List.getElem?_eq_some_iff.1 he).1, (h j e i rfl).2⟩
      · exact Mode.paced_of_loop? (f.tracer.outside_guardFailed j i)

end Frame

/-- A loop is entered before its first branch, and its trace keeps to the limit. -/
theorem Tracer.paced_mergePoint {t : Tracer} {m : Mode} (h : t.Growing m) (e : EntryPoint)
    (k : Key) : Ends (fun m' t' => m'.Paced t'.settings.traceLimit) (fun _ _ => True)
      (mergePoint e k m t) := by
  refine ((persists_growing.mergePoint e k h).and (enters_mergePoint e k m t)).imp ?_
    fun _ _ _ => trivial
  rintro m' t' ⟨hgrowing, henters⟩ j expected i hl
  obtain ⟨rfl, a, ha, rfl⟩ := henters j expected i (Mode.eq_of_loop? hl)
  exact ⟨Nat.zero_le _, (hgrowing.wellFormed j a ha).length_directions⟩

theorem invariant_paced (g : Settings) :
    Frame.Invariant (fun n f => (f.Poised g n ∧ f.Growing) ∧ f.mode.Paced g.traceLimit) forces where
  stop := fun h e => ⟨(invariant_growing g).stop h.1 e, Mode.paced_of_loop? rfl⟩
  checkKey := fun k h =>
    ((invariant_growing g).checkKey k h.1).imp (fun _ _ h' => ⟨h', h.2⟩) fun _ _ h' => ⟨h', h.2⟩
  mergePoint := fun k h hk =>
    (((invariant_growing g).mergePoint k h.1 hk).and (Tracer.paced_mergePoint h.1.2 _ k)).imp
      (fun _ _ h' => ⟨h'.1, h'.1.1.settings ▸ h'.2⟩) fun _ _ h' => ⟨h'.1, Mode.paced_of_loop? rfl⟩
  leaveLoop := fun h =>
    ((invariant_growing g).leaveLoop h.1).imp (fun _ _ h' => ⟨h', Mode.paced_of_loop? rfl⟩)
      fun _ _ h' => ⟨h', Mode.paced_of_loop? rfl⟩
  getField := fun l h => ((invariant_growing g).getField l h.1).and (Frame.paced_getField h.2 l)
  setField := fun l value h =>
    ((invariant_growing g).setField l value h.1).and (Frame.paced_setField h.1.1 h.2 l value)
  branch := fun cond h =>
    ((invariant_growing g).branch cond h.1).and (Frame.paced_branch h.2 cond)

/-- With valid settings, in all runs of all programs and whatever their client does in between, no
count of branches passes the trace limit. -/
theorem branches_throughout (settings : Settings) (hv : settings.validate = .ok ())
    (cs : List Call) :
    ∀ f ∈ moments cs { settings := settings }, f.mode.branches ≤ settings.traceLimit := by
  have hcalls : ∀ c ∈ cs, c.Outside → ∀ {n t},
      Frame.AtRest (fun n f => (f.Poised settings n ∧ f.Growing) ∧
        f.mode.Paced settings.traceLimit) n t →
      Frame.AtRest (fun n f => (f.Poised settings n ∧ f.Growing) ∧
        f.mode.Paced settings.traceLimit) n (c.perform t) :=
    fun c _ hc n t h e => ⟨⟨(c.ready_perform hc (h e).1.1.toReady).poised e,
      c.growing_perform hc (h e).1.2⟩, Mode.paced_of_loop? rfl⟩
  have hnew : Frame.AtRest (fun n f => (f.Poised settings n ∧ f.Growing) ∧
      f.mode.Paced settings.traceLimit) 0 { settings := settings } :=
    fun e => ⟨⟨(Tracer.Ready.new settings).poised e, Tracer.Growing.new hv⟩,
      Mode.paced_of_loop? rfl⟩
  obtain ⟨hms, -⟩ := (invariant_paced settings).calls hcalls hnew
  intro f hf
  obtain ⟨n, ⟨hpoised, hgrowing⟩, hpaced⟩ := hms f hf
  have hgrows := hgrowing.recording
  rw [hpoised.settings] at hgrows
  exact Mode.branches_le hgrows hpaced

/-- So if the trace limit is below the last number of 32 bits, then these have room for the next
branch at every moment. -/
theorem nextCount_branches (settings : Settings) (hv : settings.validate = .ok ())
    (hlimit : settings.traceLimit + 1 < 0x100000000) (cs : List Call) :
    ∀ f ∈ moments cs { settings := settings },
      nextCount f.mode.branches = .ok (f.mode.branches + 1) := by
  intro f hf
  have hcount := branches_throughout settings hv cs f hf
  exact nextCount_eq_ok_iff.2 ⟨by omega, rfl⟩

end HotLoop
