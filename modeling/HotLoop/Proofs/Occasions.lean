import HotLoop.Proofs.Conduct
import HotLoop.Proofs.Heads

/-!
# Occasions of a run

A run comes to loop heads and to branches, and it may be broken off because its body faults or a key
is refused. `occasions` lists these in turn, each with the frame of that moment. An invariant of
frames may speak of all the occasions before: what runs keep of it holds at every occasion and
between the calls of a client.
-/

namespace HotLoop

inductive Occasion where
  /-- A loop head, behind the check of its key. -/
  | head (f : Frame) (k : Key)
  | branch (f : Frame) (cond : Bool)
  /-- The body faults, or the key of the next pass is refused. -/
  | breakOff (f : Frame) (err : Fault)

namespace Occasion

def frame : Occasion → Frame
  | .head f _ => f
  | .branch f _ => f
  | .breakOff f _ => f

/-- The fault that ends the run at this occasion, and the tracer that it leaves. -/
def stop? : Occasion → Option (Fault × Tracer)
  | .head f k =>
    match Tracer.mergePoint f.entry k f.mode f.tracer with
    | .ok _ _ => none
    | .error err t => some (err, t)
  | .branch _ _ => none
  | .breakOff f err => some (err, f.tracer)

def Keyed : Occasion → Prop
  | .head f k => f.tracer.shapes.Accepts f.entry k
  | _ => True

end Occasion

namespace Program

variable {σ α : Type}

def Body.occasionsAfter (occasions : α → Frame → List Occasion) :
    EStateM.Result Fault Frame α → List Occasion
  | .ok a f => occasions a f
  | .error _ _ => []

def Body.occasions : Body σ → Frame → List Occasion
  | .done, _ => []
  | .fail _, _ => []
  | .fault err, f => [.breakOff f err]
  | .keep _ next, f => next.occasions f
  | .getField l next, f => occasionsAfter (fun r => (next r).occasions) (Frame.getField l f)
  | .setField l value next, f =>
    occasionsAfter (fun r => (next r).occasions) (Frame.setField l value f)
  | .branch cond next, f =>
    .branch f cond :: occasionsAfter (fun _ => next.occasions) (Frame.branch cond f)
  | .peek l next, f => (next (f.tracer.heap.get l)).occasions f
  | .ask next, f => (next f.activity).occasions f

def headOccasion (p : Program σ) (m : Mode) (t : Tracer) (s : σ) : Occasion :=
  match Tracer.onMonitor (Shapes.checkKey p.entry (p.greens s)) t with
  | .ok _ t => .head ⟨t, m, p.entry⟩ (p.greens s)
  | .error err t => .breakOff ⟨t, m, p.entry⟩ err

def occasions (p : Program σ) : Nat → Mode → Tracer → σ → List Occasion
  | 0, _, _, _ => []
  | n + 1, m, t, s =>
    if p.continues s then
      p.headOccasion m t s ::
        match p.head m s t with
        | .error _ _ => []
        | .ok m t =>
          (p.body s).occasions ⟨t, m, p.entry⟩ ++
            match enterBody p.entry (p.body s) m (t, s) with
            | .ok (m, .ok ()) (t, s) => p.occasions n m t s
            | _ => []
    else []

end Program

def Call.occasions : Call → Tracer → List Occasion
  | .run p s, t => p.occasions (p.passes s) .interpreting t s
  | _, _ => []

/-- The occasions of all the runs among the calls. -/
def occasions : List Call → Tracer → List Occasion
  | [], _ => []
  | c :: cs, t => c.occasions t ++ occasions cs (c.perform t)

/-! ## Where runs stop -/

namespace Program

variable {σ : Type} {o : Occasion} {err : Fault} {t' : Tracer}

theorem exec_of_stop? (b : Body σ) {f : Frame} (ho : o ∈ b.occasions f)
    (hs : o.stop? = some (err, t')) (s : σ) :
    ∃ f' s', b.exec (f, s) = .error err (f', s') ∧ f'.tracer = t' := by
  have hop : ∀ {α : Type} {op : EStateM Fault Frame α} {next : α → Body σ} {f : Frame} {s : σ},
      (∀ a f', o ∈ (next a).occasions f' →
        ∃ f'' s', (next a).exec (f', s) = .error err (f'', s') ∧ f''.tracer = t') →
      o ∈ Body.occasionsAfter (fun a => (next a).occasions) (op f) →
      ∃ f' s', (Body.onFrame op >>= fun a => (next a).exec) (f, s) = .error err (f', s') ∧
        f'.tracer = t' := by
    intro α op next f s ih ho
    simp only [bind, EStateM.bind, Body.onFrame]
    cases hx : op f with
    | ok a f' =>
        rw [hx] at ho
        exact ih a f' ho
    | error e f' =>
        rw [hx] at ho
        cases ho
  induction b generalizing f s with
  | done => cases ho
  | fail e => cases ho
  | fault e =>
      obtain rfl := List.mem_singleton.1 ho
      obtain ⟨rfl, rfl⟩ := Prod.mk.inj (Option.some.inj hs)
      exact ⟨f, s, rfl, rfl⟩
  | keep s' next ih => exact ih ho s'
  | getField l next ih => exact hop (fun a f' h => ih a h s) ho
  | setField l value next ih => exact hop (fun a f' h => ih a h s) ho
  | branch cond next ih =>
      rcases List.mem_cons.1 ho with rfl | ho
      · cases hs
      · exact hop (fun _ f' h => ih h s) ho
  | peek l next ih => exact ih (f.tracer.heap.get l) ho s
  | ask next ih => exact ih f.activity ho s

theorem head_of_stop? (p : Program σ) {m : Mode} {t : Tracer} {s : σ}
    (hs : (p.headOccasion m t s).stop? = some (err, t')) : p.head m s t = .error err t' := by
  unfold headOccasion at hs
  simp only [head, bind, EStateM.bind]
  cases hk : Tracer.onMonitor (Shapes.checkKey p.entry (p.greens s)) t with
  | error e t₁ =>
      rw [hk] at hs
      obtain ⟨rfl, rfl⟩ := Prod.mk.inj (Option.some.inj hs)
      rfl
  | ok _ t₁ =>
      rw [hk] at hs
      simp only [Occasion.stop?] at hs
      dsimp only
      cases hm : Tracer.mergePoint p.entry (p.greens s) m t₁ with
      | ok m' t₂ =>
          rw [hm] at hs
          cases hs
      | error e t₂ =>
          rw [hm] at hs
          obtain ⟨rfl, rfl⟩ := Prod.mk.inj (Option.some.inj hs)
          rfl

theorem iterate_of_stop? (p : Program σ) (n : Nat) {m : Mode} {t : Tracer} {s : σ}
    (ho : o ∈ p.occasions n m t s) (hs : o.stop? = some (err, t')) :
    ∃ s', p.iterate n m (t, s) = .error err (t', s') := by
  induction n generalizing m t s with
  | zero => cases ho
  | succ n ih =>
      rw [occasions] at ho
      rw [iterate_succ]
      split_ifs at ho ⊢
      · rcases List.mem_cons.1 ho with rfl | ho
        · exact ⟨s, by rw [p.head_of_stop? hs]⟩
        · cases hh : p.head m s t with
          | error e t₁ =>
              rw [hh] at ho
              cases ho
          | ok m₁ t₁ =>
              rw [hh] at ho
              rcases List.mem_append.1 ho with ho | ho
              · obtain ⟨f', s', hx, rfl⟩ := exec_of_stop? (p.body s) ho hs s
                exact ⟨s', by simp only [enterBody, hx]⟩
              · dsimp only at ho ⊢
                cases hb : enterBody p.entry (p.body s) m₁ (t₁, s) with
                | error e ts =>
                    rw [hb] at ho
                    cases ho
                | ok mr ts =>
                    rw [hb] at ho
                    obtain ⟨m₂, r⟩ := mr
                    cases r with
                    | error e => cases ho
                    | ok _ => exact ih ho
      · cases ho

end Program

variable {o : Occasion} {err : Fault} {t t' : Tracer}

/-- The occasion that stops a run ends it: the client gets that fault and that tracer. -/
theorem Call.fault?_of_stop? (c : Call) (ho : o ∈ c.occasions t)
    (hs : o.stop? = some (err, t')) : c.fault? t = some err ∧ c.perform t = t' := by
  cases c with
  | run p s =>
      obtain ⟨s', hr⟩ := p.iterate_of_stop? (p.passes s) ho hs
      have hr : p.run (t, s) = .error err (t', s') := hr
      simp only [fault?, perform, hr, and_self]
  | _ => cases ho

theorem mem_faults_of_stop? {cs : List Call} (ho : o ∈ occasions cs t)
    (hs : o.stop? = some (err, t')) : err ∈ faults cs t := by
  induction cs generalizing t with
  | nil => cases ho
  | cons c cs ih =>
      refine List.mem_append.2 ((List.mem_append.1 ho).imp (fun ho => ?_) ih)
      exact Option.mem_toList.2 (c.fault?_of_stop? ho hs).1

/-! ## Invariants that speak of the occasions before -/

namespace Occasion

def AtRest (P : List Occasion → Frame → Prop) (past : List Occasion) (t : Tracer) : Prop :=
  ∀ e, P past ⟨t, .interpreting, e⟩

def Throughout (P : List Occasion → Frame → Prop) : List Occasion → List Occasion → Prop
  | _, [] => True
  | past, o :: os => P past o.frame ∧ o.Keyed ∧ Throughout P (past ++ [o]) os

structure Invariant (P : List Occasion → Frame → Prop) : Prop where
  checkKey : ∀ {past f} k, P past f →
    Ends (fun _ t => P past { f with tracer := t }) (fun _ t => P past { f with tracer := t })
      (Tracer.onMonitor (Shapes.checkKey f.entry k) f.tracer)
  mergePoint : ∀ {past f} k, P past f → f.tracer.shapes.Accepts f.entry k →
    Ends (fun m t => P (past ++ [.head f k]) ⟨t, m, f.entry⟩)
      (fun _ t => AtRest P (past ++ [.head f k]) t)
      (Tracer.mergePoint f.entry k f.mode f.tracer)
  leaveLoop : ∀ {past f}, P past f →
    Ends (fun _ t => AtRest P past t) (fun _ t => AtRest P past t)
      (Tracer.leaveLoop f.entry f.mode f.tracer)
  getField : ∀ {past f} l, P past f →
    Ends (fun _ => P past) (fun _ f' => AtRest P past f'.tracer) (Frame.getField l f)
  setField : ∀ {past f} l value, P past f →
    Ends (fun _ => P past) (fun _ f' => AtRest P past f'.tracer) (Frame.setField l value f)
  branch : ∀ {past f} cond, P past f →
    Ends (fun _ => P (past ++ [.branch f cond]))
      (fun _ f' => AtRest P (past ++ [.branch f cond]) f'.tracer) (Frame.branch cond f)
  breakOff : ∀ {past f} err, P past f → AtRest P (past ++ [.breakOff f err]) f.tracer

variable {P : List Occasion → Frame → Prop} {past before after os : List Occasion} {o : Occasion}

theorem throughout_append :
    Throughout P past (before ++ after) ↔
      Throughout P past before ∧ Throughout P (past ++ before) after := by
  induction before generalizing past with
  | nil => simp [Throughout]
  | cons o before ih =>
      simp only [List.cons_append, Throughout, ih, and_assoc, List.append_assoc, List.nil_append]

theorem Throughout.split (h : Throughout P past os) (he : os = before ++ o :: after) :
    P (past ++ before) o.frame ∧ o.Keyed := by
  subst he
  obtain ⟨-, hf, hk, -⟩ := throughout_append.1 h
  exact ⟨hf, hk⟩

end Occasion

namespace Program

open Occasion

variable {σ α : Type} {P : List Occasion → Frame → Prop} {past : List Occasion}

def BodyHolds (P : List Occasion → Frame → Prop) (e : EntryPoint) (past os : List Occasion)
    (r : EStateM.Result Fault (Frame × σ) (Except Error Unit)) : Prop :=
  Throughout P past os ∧ Ends (fun _ fs => P (past ++ os) fs.1 ∧ fs.1.entry = e)
    (fun _ fs => AtRest P (past ++ os) fs.1.tracer) r

theorem bodyHolds_op {op : EStateM Fault Frame α} {next : α → Body σ} {f : Frame} {s : σ}
    {os past' : List Occasion} (hp : past ++ os = past') (hos : Throughout P past os)
    (hop : Ends (fun _ => P past') (fun _ f' => AtRest P past' f'.tracer) (op f))
    (hstay : f.Stays (op f))
    (ih : ∀ a g, P past' g →
      BodyHolds P g.entry past' ((next a).occasions g) ((next a).exec (g, s))) :
    BodyHolds P f.entry past (os ++ Body.occasionsAfter (fun a => (next a).occasions) (op f))
      ((Body.onFrame op >>= fun a => (next a).exec) (f, s)) := by
  subst hp
  simp only [bind, EStateM.bind, Body.onFrame]
  cases ho : op f with
  | ok a g =>
      rw [ho] at hop hstay
      obtain ⟨hnext, hend⟩ := ih a g hop
      rw [hstay, List.append_assoc] at hend
      exact ⟨throughout_append.2 ⟨hos, hnext⟩, hend⟩
  | error e g =>
      rw [ho] at hop
      rw [Body.occasionsAfter, List.append_nil]
      exact ⟨hos, hop⟩

theorem BodyHolds.stay {f : Frame} (h : P past f) (r : Except Error Unit) (s : σ) :
    BodyHolds P f.entry past [] (.ok r (f, s)) :=
  ⟨trivial, by rwa [List.append_nil], rfl⟩

theorem bodyHolds_exec (hP : Occasion.Invariant P) (b : Body σ) {f : Frame} (h : P past f) (s : σ) :
    BodyHolds P f.entry past (b.occasions f) (b.exec (f, s)) := by
  induction b generalizing past f s with
  | done => exact BodyHolds.stay h (.ok ()) s
  | fail e => exact BodyHolds.stay h (.error e) s
  | fault err => exact ⟨⟨h, trivial, trivial⟩, hP.breakOff err h⟩
  | keep s' next ih => exact ih h s'
  | getField l next ih =>
      exact bodyHolds_op (List.append_nil past) trivial (hP.getField l h)
        (Frame.stays_getField l f) fun a g hg => ih a hg s
  | setField l value next ih =>
      exact bodyHolds_op (List.append_nil past) trivial (hP.setField l value h)
        (Frame.stays_setField l value f) fun a g hg => ih a hg s
  | branch cond next ih =>
      have hone : Throughout P past [.branch f cond] := ⟨h, trivial, trivial⟩
      exact bodyHolds_op rfl hone (hP.branch cond h)
        (Frame.stays_branch cond f) fun _ g hg => ih hg s
  | peek l next ih => exact ih (f.tracer.heap.get l) h s
  | ask next ih => exact ih f.activity h s

def RunHolds (P : List Occasion → Frame → Prop) (past os : List Occasion)
    (r : EStateM.Result Fault (Tracer × σ) (Except Error Unit)) : Prop :=
  Throughout P past os ∧
    Ends (fun _ ts => AtRest P (past ++ os) ts.1) (fun _ ts => AtRest P (past ++ os) ts.1) r

variable {t : Tracer} {m : Mode}

theorem runHolds_leave (hP : Occasion.Invariant P) (p : Program σ) (r : Except Error Unit) (s : σ)
    (h : P past ⟨t, m, p.entry⟩) : RunHolds P past [] (p.leave m r (t, s)) := by
  have hl := hP.leaveLoop h
  refine ⟨trivial, ?_⟩
  rw [List.append_nil]
  simp only [leave, bind, EStateM.bind, onTracer]
  dsimp only at hl
  cases he : Tracer.leaveLoop p.entry m t with
  | ok _ t' =>
      rw [he] at hl
      exact hl
  | error e t' =>
      rw [he] at hl
      exact hl

/-- A pass comes to its head, and begins its body in the mode that the head gives. -/
theorem holds_head (hP : Occasion.Invariant P) (p : Program σ) (s : σ)
    (h : P past ⟨t, m, p.entry⟩) :
    Throughout P past [p.headOccasion m t s] ∧
      Ends (fun m' t' => P (past ++ [p.headOccasion m t s]) ⟨t', m', p.entry⟩)
        (fun _ t' => AtRest P (past ++ [p.headOccasion m t s]) t') (p.head m s t) := by
  have hk := hP.checkKey (p.greens s) h
  have hacc := accepts_onMonitor_checkKey p.entry (p.greens s) t
  simp only [headOccasion, head, bind, EStateM.bind]
  dsimp only at hk
  cases he : Tracer.onMonitor (Shapes.checkKey p.entry (p.greens s)) t with
  | error err t' =>
      rw [he] at hk
      exact ⟨⟨hk, trivial, trivial⟩, hP.breakOff err hk⟩
  | ok _ t' =>
      rw [he] at hk hacc
      exact ⟨⟨hk, hacc, trivial⟩, hP.mergePoint (p.greens s) hk hacc⟩

theorem RunHolds.behind {os os' : List Occasion}
    {r : EStateM.Result Fault (Tracer × σ) (Except Error Unit)} (h : Throughout P past os)
    (hr : RunHolds P (past ++ os) os' r) : RunHolds P past (os ++ os') r := by
  obtain ⟨hos', hend⟩ := hr
  rw [List.append_assoc] at hend
  exact ⟨throughout_append.2 ⟨h, hos'⟩, hend⟩

theorem runHolds_iterate (hP : Occasion.Invariant P) (p : Program σ) (passes : Nat) {s : σ}
    (h : P past ⟨t, m, p.entry⟩) :
    RunHolds P past (p.occasions passes m t s) (p.iterate passes m (t, s)) := by
  induction passes generalizing past m t s with
  | zero => exact runHolds_leave hP p (.ok ()) s h
  | succ passes ih =>
      rw [iterate_succ, occasions]
      split_ifs
      · obtain ⟨hhead, hh⟩ := holds_head hP p s h
        rw [← List.singleton_append]
        apply RunHolds.behind hhead
        cases hm : p.head m s t with
        | error e t' =>
            rw [hm] at hh
            exact ⟨trivial, by rwa [List.append_nil]⟩
        | ok m' t' =>
            rw [hm] at hh
            obtain ⟨hbody, hend⟩ := bodyHolds_exec hP (p.body s) hh s
            apply RunHolds.behind hbody
            simp only [enterBody]
            cases hx : (p.body s).exec (⟨t', m', p.entry⟩, s) with
            | error e fs =>
                rw [hx] at hend
                exact ⟨trivial, by rwa [List.append_nil]⟩
            | ok r fs =>
                rw [hx] at hend
                obtain ⟨⟨t'', m'', e⟩, s'⟩ := fs
                obtain ⟨hend, rfl⟩ := hend
                cases r with
                | ok _ => exact ih hend
                | error e => exact runHolds_leave hP p (.error e) s' hend
      · exact runHolds_leave hP p (.ok ()) s h

end Program

/-! ## Clients -/

namespace Occasion

variable {P : List Occasion → Frame → Prop} {past : List Occasion} {t : Tracer}

theorem Invariant.call (hP : Invariant P) (c : Call)
    (hc : c.Outside → AtRest P past t → AtRest P past (c.perform t)) (h : AtRest P past t) :
    Throughout P past (c.occasions t) ∧ AtRest P (past ++ c.occasions t) (c.perform t) := by
  cases c with
  | run p s =>
      obtain ⟨hos, hend⟩ := p.runHolds_iterate hP (p.passes s) (h p.entry) (s := s)
      refine ⟨hos, ?_⟩
      change Ends _ _ (p.run (t, s)) at hend
      simp only [Call.perform]
      cases hr : p.run (t, s) with
      | ok r ts =>
          rw [hr] at hend
          exact hend
      | error e ts =>
          rw [hr] at hend
          exact hend
  | _ =>
      have hrest := hc trivial h
      rw [← List.append_nil past] at hrest
      exact ⟨trivial, hrest⟩

/-- What runs keep, and the other ones among the calls keep too, holds at every occasion of those
before it, and between the calls of those so far. -/
theorem Invariant.calls (hP : Invariant P) {cs : List Call}
    (hcs : ∀ c ∈ cs, c.Outside → ∀ {past t}, AtRest P past t → AtRest P past (c.perform t))
    (h : AtRest P past t) :
    Throughout P past (occasions cs t) ∧ ∀ done, done <+: cs →
      AtRest P (past ++ occasions done t) (done.foldl (fun t c => c.perform t) t) := by
  induction cs generalizing past t with
  | nil =>
      refine ⟨trivial, fun done hdone => ?_⟩
      rw [List.prefix_nil.1 hdone, occasions, List.append_nil]
      exact h
  | cons c cs ih =>
      obtain ⟨hc, hcs⟩ := List.forall_mem_cons.1 hcs
      obtain ⟨hos, hrest⟩ := hP.call c (fun hc' => hc hc') h
      obtain ⟨hos', hpasts⟩ := ih hcs hrest
      refine ⟨throughout_append.2 ⟨hos, hos'⟩, fun done hdone => ?_⟩
      cases done with
      | nil =>
          rw [occasions, List.append_nil]
          exact h
      | cons c' done =>
          obtain ⟨rfl, hdone'⟩ := List.cons_prefix_cons.1 hdone
          have hend := hpasts done hdone'
          rw [List.append_assoc] at hend
          exact hend

end Occasion

end HotLoop
