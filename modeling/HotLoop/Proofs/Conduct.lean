import HotLoop.Proofs.Bookkeeping
import HotLoop.Proofs.Transparency

/-!
# Clients that keep their part

A client keeps its part if the keys of its loops have the shape of their entry point and its loop
bodies do not fault. Its observers may fail at any notice, and they alone can then end a run with a
fault, but for a bridge that its loop can no longer count. At every moment of its runs and between its
calls the tracer is orderly, and what was done to the books are strokes of `Books.Move`, as long as
all bridges were counted.
-/

namespace HotLoop

open Code Lifecycle

/-! ## What a client has to do -/

namespace Program

variable {σ α : Type}

def Body.behavesAfter (behaves : α → Frame → Bool) : EStateM.Result Fault Frame α → Bool
  | .ok a f => behaves a f
  | .error _ _ => true

/-- The body, executed in this frame, does not come to a fault of its own. -/
def Body.behaves : Body σ → Frame → Bool
  | .done, _ => true
  | .fail _, _ => true
  | .fault _, _ => false
  | .keep _ next, f => next.behaves f
  | .getField l next, f => behavesAfter (fun r => (next r).behaves) (Frame.getField l f)
  | .setField l value next, f =>
    behavesAfter (fun r => (next r).behaves) (Frame.setField l value f)
  | .branch cond next, f => behavesAfter (fun _ => next.behaves) (Frame.branch cond f)
  | .peek l next, f => (next (f.tracer.heap.get l)).behaves f
  | .ask next, f => (next f.activity).behaves f

/-- In each of at most `n` passes, the first of them in mode `m`, the key has the shape of its entry
point and the body behaves. -/
def behaves (p : Program σ) : Nat → Mode → Tracer → σ → Bool
  | 0, _, _, _ => true
  | n + 1, m, t, s =>
    if p.continues s then
      (t.shapes.check p.entry (p.greens s)).isOk &&
        match p.head m s t with
        | .error _ _ => true
        | .ok m t =>
          (p.body s).behaves ⟨t, m, p.entry⟩ &&
            match enterBody p.entry (p.body s) m (t, s) with
            | .ok (m, .ok ()) (t, s) => p.behaves n m t s
            | _ => true
    else true

end Program

namespace Call

def behaves : Call → Tracer → Bool
  | .run p s, t => p.behaves (p.passes s) .interpreting t s
  | _, _ => true

def fault? : Call → Tracer → Option Fault
  | .run p s, t =>
    match p.run (t, s) with
    | .ok _ _ => none
    | .error f _ => some f
  | _, _ => none

end Call

def behave : List Call → Tracer → Bool
  | [], _ => true
  | c :: cs, t => c.behaves t && behave cs (c.perform t)

def faults : List Call → Tracer → List Fault
  | [], _ => []
  | c :: cs, t => (c.fault? t).toList ++ faults cs (c.perform t)

/-! ## Bodies -/

structure Frame.Reaches (f g : Frame) : Prop where
  orderly : g.Orderly False
  entry : g.entry = f.entry
  books : f.books.Leads g.books

structure Frame.Stops (f : Frame) (err : Fault) (g : Frame) : Prop extends f.Reaches g where
  hook : ∃ hook, err = .observerFailed hook
  mode : g.mode = .interpreting

namespace Frame

variable {α : Type} {f g g' : Frame}

theorem Reaches.refl (h : f.Orderly False) : f.Reaches f := ⟨h, rfl, Books.Leads.refl _⟩

theorem Reaches.trans (h : f.Reaches g) (h' : g.Reaches g') : f.Reaches g' :=
  ⟨h'.orderly, h'.entry.trans h.entry, h.books.trans h'.books⟩

theorem Stops.behind {err : Fault} (h : f.Reaches g) (h' : g.Stops err g') : f.Stops err g' :=
  ⟨h.trans h'.toReaches, h'.hook, h'.mode⟩

theorem reaches_of_obeys {a : α} {reads : Reads} {r : EStateM.Result Fault Frame α}
    (ho : Obeys False f a reads r) (hk : Keeps f r) : Ends (fun _ g => f.Reaches g) f.Stops r := by
  cases r with
  | ok b g =>
      obtain ⟨-, -, horderly, hentry, -⟩ := ho
      exact ⟨horderly, hentry, hk⟩
  | error err g =>
      obtain ⟨hook, rfl⟩ := ho.hook
      exact ⟨⟨ho.orderly, ho.loop.1, hk Fault.noConfusion⟩, ⟨hook, rfl⟩, ho.mode⟩

end Frame

namespace Program

variable {σ α : Type}

def BodyReaches (f : Frame) (ms : List Frame)
    (r : EStateM.Result Fault (Frame × σ) (Except Error Unit)) : Prop :=
  (∀ g ∈ ms, f.Reaches g) ∧ Ends (fun _ fs => f.Reaches fs.1) (fun err fs => f.Stops err fs.1) r

theorem BodyReaches.behind {f g : Frame} {ms : List Frame}
    {r : EStateM.Result Fault (Frame × σ) (Except Error Unit)} (h : f.Reaches g)
    (hr : BodyReaches g ms r) : BodyReaches f ms r :=
  ⟨fun g' hg' => h.trans (hr.1 g' hg'),
    hr.2.imp (fun _ _ => h.trans) fun _ _ => Frame.Stops.behind h⟩

theorem BodyReaches.stay {f : Frame} (h : f.Orderly False) (r : Except Error Unit) (s : σ) :
    BodyReaches f [f] (.ok r (f, s)) := by
  refine ⟨fun g hg => ?_, Frame.Reaches.refl h⟩
  rw [List.mem_singleton.1 hg]
  exact Frame.Reaches.refl h

theorem bodyReaches_op {op : EStateM Fault Frame α} {next : α → Body σ} {f : Frame} {s : σ}
    (h : f.Orderly False) (hop : Ends (fun _ g => f.Reaches g) f.Stops (op f))
    (hb : Body.behavesAfter (fun a => (next a).behaves) (op f) = true)
    (ih : ∀ a g, g.Orderly False → (next a).behaves g = true →
      BodyReaches g ((next a).moments g) ((next a).exec (g, s))) :
    BodyReaches f (f :: Body.momentsAfter (fun a => (next a).moments) (op f))
      ((Body.onFrame op >>= fun a => (next a).exec) (f, s)) := by
  have hcons : ∀ {ms : List Frame} {r : EStateM.Result Fault (Frame × σ) (Except Error Unit)},
      BodyReaches f ms r → BodyReaches f (f :: ms) r := by
    rintro ms r ⟨hms, hr⟩
    exact ⟨List.forall_mem_cons.2 ⟨Frame.Reaches.refl h, hms⟩, hr⟩
  apply hcons
  simp only [bind, EStateM.bind, Body.onFrame]
  cases ho : op f with
  | ok a g =>
      rw [ho] at hop hb
      exact (ih a g hop.orderly hb).behind hop
  | error err g =>
      rw [ho] at hop
      refine ⟨fun g' hg' => ?_, hop⟩
      rw [List.mem_singleton.1 hg']
      exact hop.toReaches

/-- A body that behaves is broken off by observers only. -/
theorem bodyReaches_exec (b : Body σ) {f : Frame} (h : f.Orderly False) (hb : b.behaves f = true)
    (s : σ) : BodyReaches f (b.moments f) (b.exec (f, s)) := by
  induction b generalizing f s with
  | done => exact BodyReaches.stay h (.ok ()) s
  | fail e => exact BodyReaches.stay h (.error e) s
  | fault e => cases hb
  | keep s' next ih => exact ih h hb s'
  | getField l next ih =>
      have hop := Frame.reaches_of_obeys (Frame.obeys_getField h l) (Frame.keeps_getField h l)
      exact bodyReaches_op h hop hb fun a g hg hb => ih a hg hb s
  | setField l value next ih =>
      have hop := Frame.reaches_of_obeys (Frame.obeys_setField h l value)
        (Frame.keeps_setField h l value)
      exact bodyReaches_op h hop hb fun a g hg hb => ih a hg hb s
  | branch cond next ih =>
      have hop := Frame.reaches_of_obeys (Frame.obeys_branch h cond) (Frame.keeps_branch h cond)
      exact bodyReaches_op h hop hb fun _ g hg hb => ih hg hb s
  | peek l next ih => exact ih (f.tracer.heap.get l) h hb s
  | ask next ih => exact ih f.activity h hb s

end Program

/-! ## Runs -/

structure Tracer.Idle (b : Books) (t : Tracer) : Prop where
  orderly : ∀ e, t.Orderly False e .interpreting
  books : b.Leads (t.books .interpreting)

theorem Tracer.Idle.of_orderly {b : Books} {t : Tracer} {e : EntryPoint}
    (h : t.Orderly False e .interpreting) (hb : b.Leads (t.books .interpreting)) : t.Idle b :=
  ⟨fun _ => ⟨h.sound, h.follows, trivial, h.quiet⟩, hb⟩

/-- The fault of an observer, with no trace open; or a bridge could not be counted, so the books are
lost. -/
def Tracer.Interrupted (b : Books) (err : Fault) (t : Tracer) : Prop :=
  (∃ hook, err = .observerFailed hook) ∧ t.Idle b ∨
    err = .countOverflow ∧ t.Idle (t.books .interpreting)

theorem Tracer.Interrupted.of_orderly {b : Books} {t : Tracer} {e : EntryPoint} {err : Fault}
    (hc : (∃ hook, err = .observerFailed hook) ∨ err = .countOverflow)
    (h : t.Orderly False e .interpreting) (hp : Tracer.Pauses b err t) : t.Interrupted b err := by
  rcases hc with ⟨hook, rfl⟩ | rfl
  · exact Or.inl ⟨⟨hook, rfl⟩, Tracer.Idle.of_orderly h (hp Fault.noConfusion)⟩
  · exact Or.inr ⟨rfl, Tracer.Idle.of_orderly h (Books.Leads.refl _)⟩

namespace Program

variable {σ : Type} {b : Books} {t : Tracer} {m : Mode}

theorem ends_head (p : Program σ) {s : σ} (h : t.Orderly False p.entry m)
    (hb : b.Leads (t.books m)) (hk : (t.shapes.check p.entry (p.greens s)).isOk = true) :
    Ends (fun m' t' => t'.Orderly False p.entry m' ∧ b.Leads (t'.books m')) (Tracer.Interrupted b)
      (p.head m s t) := by
  cases hc : t.shapes.check p.entry (p.greens s) with
  | error f =>
      rw [hc] at hk
      cases hk
  | ok shapes =>
      have hfits := h.fits.later (fun _ hk => hk.of_check hc) (Cache.Later.refl _) fun _ hset => hset
      have ho : Tracer.Orderly False p.entry { t with shapes := shapes } m :=
        ⟨h.sound, h.follows, hfits, h.quiet⟩
      have hmerge := Tracer.orderly_mergePoint ho (Shapes.accepts_of_check hc)
      have hlead := Tracer.leads_mergePoint ho (Shapes.accepts_of_check hc)
      rw [head_eq, hc]
      dsimp only
      cases hx : Tracer.mergePoint p.entry (p.greens s) m { t with shapes := shapes } with
      | ok m' t' =>
          rw [hx] at hmerge hlead
          exact ⟨hmerge.1, hb.trans hlead⟩
      | error err t' =>
          rw [hx] at hmerge hlead
          exact .of_orderly (hmerge.cause.imp_left And.right) hmerge.orderly (hlead.behind hb)

theorem ends_leave (p : Program σ) (r : Except Error Unit) (h : t.Orderly False p.entry m)
    (hb : b.Leads (t.books m)) (s : σ) :
    Ends (fun _ ts => ts.1.Idle b) (fun err ts => ts.1.Interrupted b err) (p.leave m r (t, s)) := by
  have hl := Tracer.orderly_leaveLoop h
  have hlead := Tracer.leads_leaveLoop h
  simp only [leave, bind, EStateM.bind, onTracer]
  cases hx : Tracer.leaveLoop p.entry m t with
  | ok _ t' =>
      rw [hx] at hl hlead
      exact Tracer.Idle.of_orderly hl.1 (hb.trans hlead)
  | error err t' =>
      rw [hx] at hl hlead
      exact .of_orderly (Or.inl hl.hook) hl.orderly (hlead.behind hb)

/-- The body of a pass that behaves: frames in order, and a mode to go on in. -/
theorem reaches_enterBody (p : Program σ) {s : σ} (h : t.Orderly False p.entry m)
    (hb : b.Leads (t.books m)) (hbody : (p.body s).behaves ⟨t, m, p.entry⟩ = true) :
    (∀ g ∈ (p.body s).moments ⟨t, m, p.entry⟩, g.Orderly False ∧ b.Leads g.books) ∧
      Ends (fun mr ts => ts.1.Orderly False p.entry mr.1 ∧ b.Leads (ts.1.books mr.1))
        (fun err ts => ts.1.Interrupted b err) (enterBody p.entry (p.body s) m (t, s)) := by
  have hf : Frame.Orderly False ⟨t, m, p.entry⟩ := h
  obtain ⟨hms, hend⟩ := bodyReaches_exec (p.body s) hf hbody s
  refine ⟨fun g hg => ⟨(hms g hg).orderly, hb.trans (hms g hg).books⟩, ?_⟩
  unfold enterBody
  dsimp only
  cases he : (p.body s).exec (⟨t, m, p.entry⟩, s) with
  | ok r fs =>
      rw [he] at hend
      obtain ⟨⟨t', m', e⟩, s'⟩ := fs
      obtain ⟨ho, rfl, hlead⟩ := hend
      exact ⟨ho, hb.trans hlead⟩
  | error err fs =>
      rw [he] at hend
      obtain ⟨⟨t', m', e⟩, s'⟩ := fs
      obtain ⟨⟨ho, rfl, hlead⟩, hhook, rfl⟩ := hend
      exact Or.inl ⟨hhook, Tracer.Idle.of_orderly ho (hb.trans hlead)⟩

def RunReaches (b : Books) (ms : List Frame)
    (r : EStateM.Result Fault (Tracer × σ) (Except Error Unit)) : Prop :=
  (∀ g ∈ ms, g.Orderly False ∧ b.Leads g.books) ∧
    Ends (fun _ ts => ts.1.Idle b) (fun err ts => ts.1.Interrupted b err) r

theorem runReaches_iterate (p : Program σ) (n : Nat) (h : t.Orderly False p.entry m)
    (hb : b.Leads (t.books m)) {s : σ} (hbehaves : p.behaves n m t s = true) :
    RunReaches b (p.moments n m t s) (p.iterate n m (t, s)) := by
  induction n generalizing m t s with
  | zero => exact ⟨List.forall_mem_nil _, p.ends_leave (.ok ()) h hb s⟩
  | succ n ih =>
      rw [behaves] at hbehaves
      rw [moments, iterate_succ]
      split_ifs at hbehaves ⊢ with hc
      · obtain ⟨hk, hbehaves⟩ := Bool.and_eq_true_iff.1 hbehaves
        have hh := p.ends_head h hb hk
        cases hx : p.head m s t with
        | error err t' =>
            rw [hx] at hh
            exact ⟨List.forall_mem_nil _, hh⟩
        | ok m' t' =>
            rw [hx] at hh hbehaves
            obtain ⟨hbody, hrest⟩ := Bool.and_eq_true_iff.1 hbehaves
            obtain ⟨hms, hend⟩ := p.reaches_enterBody hh.1 hh.2 hbody
            dsimp only
            cases he : enterBody p.entry (p.body s) m' (t', s) with
            | error err ts =>
                rw [he] at hend
                exact ⟨List.forall_mem_append.2 ⟨hms, List.forall_mem_nil _⟩, hend⟩
            | ok mr ts =>
                rw [he] at hend hrest
                obtain ⟨m'', r⟩ := mr
                obtain ⟨ho, hlead⟩ := hend
                cases r with
                | ok _ =>
                    obtain ⟨hms', hend'⟩ := ih ho hlead hrest
                    exact ⟨List.forall_mem_append.2 ⟨hms, hms'⟩, hend'⟩
                | error err =>
                    refine ⟨List.forall_mem_append.2 ⟨hms, List.forall_mem_nil _⟩, ?_⟩
                    exact p.ends_leave (.error err) ho hlead ts.2
      · exact ⟨List.forall_mem_nil _, p.ends_leave (.ok ()) h hb s⟩

end Program

/-! ## Clients -/

section

variable {b : Books} {t : Tracer}

theorem idle_perform {c : Call} (h : t.Idle b) (hc : c.Succeeds t)
    (hl : ∀ e, t.Orderly False e .interpreting →
      (t.books .interpreting).Leads ((c.perform t).books .interpreting)) : (c.perform t).Idle b where
  orderly := fun e => orderly_perform c e h.orderly hc
  books := h.books.trans (hl ⟨0, "", [], []⟩ (h.orderly _))

theorem idle_setField (h : t.Idle b) (l : Location) (value : Int) :
    ((Call.setField l value).perform t).Idle b := by
  refine idle_perform h trivial fun e ho => ?_
  simp only [Call.perform, Tracer.setField]
  cases hw : t.write l value with
  | error err => exact Books.Leads.refl _
  | ok p =>
      obtain ⟨t', i⟩ := p
      have hwrite := Tracer.leads_write ho hw
      have ho' := (Tracer.orderly_write ho hw).1
      cases i with
      | none => exact hwrite
      | some i => exact hwrite.trans (Tracer.leads_retireDependents ho' i)

theorem idle_write (h : t.Idle b) (l : Location) (value : Int) :
    ((Call.write l value).perform t).Idle b := by
  refine idle_perform h trivial fun e ho => ?_
  simp only [Call.perform]
  cases hw : t.write l value with
  | error err => exact Books.Leads.refl _
  | ok p => exact Tracer.leads_write ho hw

theorem idle_alloc (h : t.Idle b) (cls : ObjectClass) (values : List (String × Int)) :
    ((Call.alloc cls values).perform t).Idle b := by
  refine idle_perform h trivial fun e ho => ?_
  simp only [Call.perform]
  cases t.heap.alloc cls values with
  | error err => exact Books.Leads.refl _
  | ok p => exact Books.Leads.refl _

/-- A call that behaves: its moments are in order, an observer alone can end it with a fault, or a
bridge that could not be counted, and behind it no trace is open. -/
theorem call_reaches (c : Call) (h : t.Idle b) (hc : c.behaves t = true) :
    (∀ f ∈ c.moments t, f.Orderly False ∧ b.Leads f.books) ∧
      (∀ err ∈ c.fault? t, (c.perform t).Interrupted b err) ∧
      (c.fault? t = none → (c.perform t).Idle b) := by
  have hquiet : ∀ {t' : Tracer}, ∀ err ∈ (none : Option Fault), t'.Interrupted b err :=
    fun err he => absurd he (Option.not_mem_none err)
  cases c with
  | run p s =>
      obtain ⟨hms, hend⟩ := p.runReaches_iterate (p.passes s) (h.orderly p.entry) h.books hc
      refine ⟨hms, ?_⟩
      change Ends _ _ (p.run (t, s)) at hend
      simp only [Call.fault?, Call.perform]
      cases hr : p.run (t, s) with
      | ok r ts =>
          rw [hr] at hend
          exact ⟨hquiet, fun _ => hend⟩
      | error err ts =>
          rw [hr] at hend
          refine ⟨fun err' he => ?_, fun hn => by cases hn⟩
          obtain rfl := Option.some.inj he
          exact hend
  | setField l value => exact ⟨List.forall_mem_nil _, hquiet, fun _ => idle_setField h l value⟩
  | write l value => exact ⟨List.forall_mem_nil _, hquiet, fun _ => idle_write h l value⟩
  | alloc cls values => exact ⟨List.forall_mem_nil _, hquiet, fun _ => idle_alloc h cls values⟩
  | addObserver o =>
      refine ⟨List.forall_mem_nil _, hquiet, fun _ => idle_perform h trivial fun e ho => ?_⟩
      exact Books.Leads.refl _

/-- All calls behave. As long as every bridge was counted, the books go on behind `b`. -/
theorem calls_reach (cs : List Call) (h : t.Idle b) (hcs : behave cs t = true) :
    (∀ f ∈ moments cs t, f.Orderly False ∧ (.countOverflow ∉ faults cs t → b.Leads f.books)) ∧
      (∀ err ∈ faults cs t, (∃ hook, err = .observerFailed hook) ∨ err = .countOverflow) ∧
      ∀ past, past <+: cs → ∃ b', (past.foldl (fun t c => c.perform t) t).Idle b' ∧
        (.countOverflow ∉ faults cs t → b' = b) := by
  induction cs generalizing t b with
  | nil =>
      refine ⟨List.forall_mem_nil _, List.forall_mem_nil _, fun past hpast => ?_⟩
      rw [List.prefix_nil.1 hpast]
      exact ⟨b, h, fun _ => rfl⟩
  | cons c cs ih =>
      obtain ⟨hc, hcs⟩ := Bool.and_eq_true_iff.1 hcs
      obtain ⟨hms, hfault, hdone⟩ := call_reaches c h hc
      have hcause : ∀ err ∈ (c.fault? t).toList,
          (∃ hook, err = .observerFailed hook) ∨ err = .countOverflow := fun err he =>
        (hfault err (Option.mem_toList.1 he)).imp And.left And.left
      -- the books go on behind the call, or they begin anew
      obtain ⟨b', hidle, hsame⟩ : ∃ b', (c.perform t).Idle b' ∧
          (.countOverflow ∉ (c.fault? t).toList → b' = b) := by
        cases hf : c.fault? t with
        | none => exact ⟨b, hdone hf, fun _ => rfl⟩
        | some err =>
            rcases hfault err hf with ⟨-, hidle⟩ | ⟨rfl, hidle⟩
            · exact ⟨b, hidle, fun _ => rfl⟩
            · exact ⟨_, hidle, fun hno => absurd (List.mem_singleton_self _) hno⟩
      obtain ⟨hms', hfaults, hpasts⟩ := ih hidle hcs
      have hno : .countOverflow ∉ faults (c :: cs) t →
          b' = b ∧ .countOverflow ∉ faults cs (c.perform t) := fun hno =>
        ⟨hsame fun hm => hno (List.mem_append_left _ hm), fun hm => hno (List.mem_append_right _ hm)⟩
      refine ⟨List.forall_mem_append.2 ⟨fun f hf => ?_, fun f hf => ?_⟩,
        List.forall_mem_append.2 ⟨hcause, hfaults⟩, fun past hpast => ?_⟩
      · exact ⟨(hms f hf).1, fun _ => (hms f hf).2⟩
      · obtain ⟨ho, hlead⟩ := hms' f hf
        exact ⟨ho, fun hn => (hno hn).1 ▸ hlead (hno hn).2⟩
      · cases past with
        | nil => exact ⟨b, h, fun _ => rfl⟩
        | cons c' past =>
            obtain ⟨rfl, hpast'⟩ := List.cons_prefix_cons.1 hpast
            obtain ⟨b'', hpast, hsame'⟩ := hpasts past hpast'
            exact ⟨b'', hpast, fun hn => (hsame' (hno hn).2).trans (hno hn).1⟩

end

end HotLoop
