import Mathlib.Data.List.TakeWhile
import HotLoop.Proofs.Cache

/-!
# Installing and entering

Installing registers a fresh handle on the guarded versions and then stores the artifact, and both
keep the invariant of the cache. `Pending` says what holds between the two steps. What is refused
has still taken a handle and left it with the dependents.
-/

namespace HotLoop.Code

open Trace Versions

structure Artifact.Like (a a' : Artifact) : Prop where
  handle : a'.handle = a.handle
  kind : a'.kind = a.kind
  site : a'.site = a.site
  guards : a'.guards = a.guards

theorem Artifact.Like.refl (a : Artifact) : a.Like a :=
  ⟨rfl, rfl, rfl, rfl⟩

theorem Artifact.like_attach (a : Artifact) (i : Nat) (b : Handle) : a.Like (a.attach i b) :=
  ⟨rfl, rfl, rfl, rfl⟩

structure Artifact.SameBody (a a' : Artifact) : Prop where
  kind : a'.kind = a.kind
  guards : a'.guards = a.guards
  operations : a'.operations = a.operations

theorem Artifact.SameBody.refl (a : Artifact) : a.SameBody a := ⟨rfl, rfl, rfl⟩

theorem Artifact.Loses.sameBody {a a' : Artifact} {gone : List Handle} (h : a.Loses a' gone) :
    a.SameBody a' := ⟨h.kind, h.guards, h.operations⟩

namespace Cache

/-! ## Registering -/

/-- The handle `h` depends on the locations of `g`, and nothing is stored under it yet. -/
structure Pending (c : Cache) (h : Handle) (g : Guards) : Prop where
  number_lt : h.number < c.next
  dead : c.get? h = none
  childless : ∀ b ba i, c.get? b = some ba → ba.kind ≠ .bridge h i
  current : ∀ v ∈ g.captured, c.versions.IsCurrent v
  dependents : ∀ l, h ∈ c.versions.dependents l ↔ ∃ v ∈ g.captured, v.location = l

/-- Registering uses up a handle and adds it to the dependents of the guarded locations before the
first stale guard. -/
theorem register_spec (c : Cache) (g : Guards) :
    SameVersions c.versions (c.register g).1.versions ∧ (c.register g).1.next = c.next + 1 ∧
      (c.register g).2 = (match g.firstStale? c.versions with
        | none => .ok ⟨c.next⟩
        | some v => .error v.location) ∧
      (∀ l d, d ∈ (c.register g).1.versions.dependents l ↔ d ∈ c.versions.dependents l ∨
        d = ⟨c.next⟩ ∧ ∃ v ∈ g.captured.takeWhile fun v => decide (c.versions.IsCurrent v),
          v.location = l) ∧
      ((∀ l, (c.versions.dependents l).Nodup) →
        ∀ l, ((c.register g).1.versions.dependents l).Nodup) := by
  obtain ⟨hv, hr, hd, hn⟩ := registerAll_spec ⟨c.next⟩ g.captured c.versions
  refine ⟨hv, rfl, ?_, hd, hn⟩
  change (c.versions.registerAll ⟨c.next⟩ g.captured).2.map _ = _
  rw [hr]
  unfold Guards.firstStale?
  cases g.captured.find? fun v => decide (¬ c.versions.IsCurrent v) <;> rfl

@[simp] theorem get?_register (c : Cache) (g : Guards) (h : Handle) :
    (c.register g).1.get? h = c.get? h := rfl

theorem Sound.get?_next {c : Cache} (hc : c.Sound) : c.get? ⟨c.next⟩ = none := by
  cases ha : c.get? ⟨c.next⟩ with
  | none => rfl
  | some a => exact absurd (hc.handle _ a ha).2 (lt_irrefl _)

theorem Sound.ne_next {c : Cache} (hc : c.Sound) {h : Handle} {a : Artifact}
    (ha : c.get? h = some a) : h ≠ ⟨c.next⟩ := by
  rintro rfl
  rw [hc.get?_next] at ha
  cases ha

theorem Sound.loop?_ne_next {c : Cache} (hc : c.Sound) (s : Site) : c.loop? s ≠ some ⟨c.next⟩ := by
  intro hs
  obtain ⟨a, ha, -⟩ := (hc.loop_iff s _).1 hs
  exact hc.ne_next ha rfl

theorem Sound.register {c : Cache} (hc : c.Sound) (g : Guards) : (c.register g).1.Sound := by
  obtain ⟨hv, hx, -, hd, hn⟩ := register_spec c g
  constructor
  case versions => exact hc.versions.of_sameVersions hv (hn hc.versions.nodup)
  case handle =>
    intro h a ha
    obtain ⟨he, hlt⟩ := hc.handle h a ha
    exact ⟨he, hx ▸ hlt.trans (Nat.lt_succ_self _)⟩
  case loop_iff => exact hc.loop_iff
  case bridge => exact hc.bridge
  case parent =>
    intro b ba p i hba hk
    obtain ⟨hlt, hp⟩ := hc.parent b ba p i hba hk
    exact ⟨hx ▸ hlt.trans (Nat.lt_succ_self _), hp⟩
  case issued => exact fun h a ha v hg => (hv.issued_iff v).2 (hc.issued h a ha v hg)
  case registered =>
    intro h a ha v hg hcur
    rw [hv.isCurrent_iff] at hcur
    exact (hd _ _).2 (Or.inl (hc.registered h a ha v hg hcur))
  case dependent =>
    intro l d hm
    rw [hx]
    rcases (hd l d).1 hm with hm | ⟨rfl, -⟩
    · obtain ⟨hlt, hg⟩ := hc.dependent l d hm
      exact ⟨hlt.trans (Nat.lt_succ_self _), hg⟩
    · refine ⟨Nat.lt_succ_self _, fun a ha => ?_⟩
      rw [get?_register, hc.get?_next] at ha
      cases ha

theorem firstStale?_eq_none_iff (g : Guards) (t : Versions) :
    g.firstStale? t = none ↔ ∀ v ∈ g.captured, t.IsCurrent v := by
  simp [Guards.firstStale?]

theorem Sound.pending_register {c : Cache} (hc : c.Sound) {g : Guards}
    (hg : g.firstStale? c.versions = none) : (c.register g).1.Pending ⟨c.next⟩ g := by
  obtain ⟨hv, hx, -, hd, -⟩ := register_spec c g
  have hcur := (firstStale?_eq_none_iff g c.versions).1 hg
  constructor
  case number_lt => exact hx ▸ Nat.lt_succ_self _
  case dead => exact hc.get?_next
  case childless =>
    intro b ba i hba hk
    exact absurd (hc.parent b ba _ i hba hk).1 (lt_irrefl _)
  case current => exact fun v hv' => (hv.isCurrent_iff v).2 (hcur v hv')
  case dependents =>
    intro l
    have hall : g.captured.takeWhile (fun v => decide (c.versions.IsCurrent v)) = g.captured :=
      List.takeWhile_eq_self_iff.2 fun v hv' => decide_eq_true (hcur v hv')
    rw [hd, hall]
    constructor
    · rintro (hm | ⟨-, hm⟩)
      · exact absurd (hc.dependent l _ hm).1 (lt_irrefl _)
      · exact hm
    · exact fun hm => Or.inr ⟨rfl, hm⟩

theorem Pending.without {c c' : Cache} {gone : List Handle} {h : Handle} {g : Guards}
    (hp : c.Pending h g) (hw : c.Without c' gone) : c'.Pending h g := by
  have hm : h ∉ gone := fun hm => by
    obtain ⟨a, ha⟩ := hw.listed h hm
    rw [hp.dead] at ha
    cases ha
  constructor
  case number_lt => exact hw.next ▸ hp.number_lt
  case dead => exact (hw.dead h).2 (Or.inr hp.dead)
  case childless =>
    intro b ba' i hba'
    obtain ⟨ba, hba, hl⟩ := hw.live b ba' hba'
    rw [hl.kind]
    exact hp.childless b ba i hba
  case current => exact fun v hv => (hw.versions.isCurrent_iff v).2 (hp.current v hv)
  case dependents =>
    intro l
    rw [hw.dependents, hp.dependents, and_iff_left hm]

/-! ## Storing -/

/-- The cache `c'` is `c` with the artifact `n` stored under `h`, where nothing was. The others are
the same, but one of them may have got to know `n` as its bridge. -/
structure Stores (c c' : Cache) (h : Handle) (n : Artifact) : Prop where
  versions : c'.versions = c.versions
  next : c'.next = c.next
  stored : c'.get? h = some n
  others : ∀ j a', j ≠ h → c'.get? j = some a' → ∃ a, c.get? j = some a ∧ a.Like a'
  kept : ∀ j a, j ≠ h → c.get? j = some a → ∃ a', c'.get? j = some a' ∧ a.Like a'
  loops : ∀ s j, c'.loop? s = some j ↔
    c.loop? s = some j ∨ j = h ∧ n.kind = .loop ∧ n.site = s
  bridges : ∀ j a a' i b, j ≠ h → c.get? j = some a → c'.get? j = some a' →
    a'.bridges.find? i = some b → a.bridges.find? i = some b ∨
      b = h ∧ a.kind = .loop ∧ n.kind = .bridge j i ∧ n.site = a.site
  parent : ∀ p i, n.kind = .bridge p i →
    ∃ pa, c.get? p = some pa ∧ pa.kind = .loop ∧ pa.site = n.site
  childless : ∀ i, n.bridges.find? i = none

theorem Pending.ne {c : Cache} {h j : Handle} {g : Guards} {a : Artifact} (hp : c.Pending h g)
    (ha : c.get? j = some a) : j ≠ h := by
  rintro rfl
  rw [hp.dead] at ha
  cases ha

theorem Stores.cases {c c' : Cache} {h j : Handle} {n a' : Artifact} (hs : c.Stores c' h n)
    (ha' : c'.get? j = some a') :
    j = h ∧ a' = n ∨ j ≠ h ∧ ∃ a, c.get? j = some a ∧ a.Like a' := by
  by_cases hj : j = h
  · subst hj
    exact Or.inl ⟨rfl, Option.some.inj (ha'.symm.trans hs.stored)⟩
  · exact Or.inr ⟨hj, hs.others j a' hj ha'⟩

/-- Storing an artifact under a handle that is pending on its guards keeps the invariant. -/
theorem Pending.sound_of_stores {c c' : Cache} {h : Handle} {n : Artifact}
    (hp : c.Pending h n.guards) (hc : c.Sound) (hs : c.Stores c' h n) (hn : n.handle = h) :
    c'.Sound where
  versions := hs.versions ▸ hc.versions
  handle := fun j a' ha' => by
    rw [hs.next]
    rcases hs.cases ha' with ⟨rfl, rfl⟩ | ⟨-, a, ha, hl⟩
    · exact ⟨hn, hp.number_lt⟩
    · rw [hl.handle]
      exact hc.handle j a ha
  loop_iff := fun s j => by
    rw [hs.loops]
    constructor
    · rintro (hj | ⟨rfl, hk, hsite⟩)
      · obtain ⟨a, ha, hk, hsite⟩ := (hc.loop_iff s j).1 hj
        obtain ⟨a', ha', hl⟩ := hs.kept j a (hp.ne ha) ha
        exact ⟨a', ha', hl.kind.trans hk, hl.site.trans hsite⟩
      · exact ⟨n, hs.stored, hk, hsite⟩
    · rintro ⟨a', ha', hk, hsite⟩
      rcases hs.cases ha' with ⟨rfl, rfl⟩ | ⟨-, a, ha, hl⟩
      · exact Or.inr ⟨rfl, hk, hsite⟩
      · exact Or.inl ((hc.loop_iff s j).2 ⟨a, ha, hl.kind ▸ hk, hl.site ▸ hsite⟩)
  bridge := fun j a' i b ha' hb => by
    rcases hs.cases ha' with ⟨rfl, rfl⟩ | ⟨hj, a, ha, hl⟩
    · rw [hs.childless] at hb
      cases hb
    · rw [hl.kind, hl.site]
      rcases hs.bridges j a a' i b hj ha ha' hb with hb | ⟨rfl, hk, hnk, hsite⟩
      · obtain ⟨hk, ba, hba, hbk, hbs⟩ := hc.bridge j a i b ha hb
        obtain ⟨ba', hba', hbl⟩ := hs.kept b ba (hp.ne hba) hba
        exact ⟨hk, ba', hba', hbl.kind.trans hbk, hbl.site.trans hbs⟩
      · exact ⟨hk, n, hs.stored, hnk, hsite⟩
  parent := fun b ba' p i hba' hk => by
    rw [hs.next]
    rcases hs.cases hba' with ⟨rfl, rfl⟩ | ⟨-, ba, hba, hbl⟩
    · obtain ⟨pa, hpa, hpk, hps⟩ := hs.parent p i hk
      refine ⟨(hc.handle p pa hpa).2, fun pa' hpa' => ?_⟩
      obtain ⟨pa₀, hpa₀, hpl⟩ := hs.others p pa' (hp.ne hpa) hpa'
      obtain rfl := Option.some.inj (hpa.symm.trans hpa₀)
      exact ⟨hpl.kind.trans hpk, hpl.site.trans hps⟩
    · rw [hbl.kind] at hk
      obtain ⟨hlt, hpar⟩ := hc.parent b ba p i hba hk
      refine ⟨hlt, fun pa' hpa' => ?_⟩
      rcases hs.cases hpa' with ⟨rfl, -⟩ | ⟨-, pa, hpa, hpl⟩
      · exact absurd hk (hp.childless b ba i hba)
      · rw [hpl.kind, hpl.site, hbl.site]
        exact hpar pa hpa
  issued := fun j a' ha' v hv => by
    rw [hs.versions]
    rcases hs.cases ha' with ⟨rfl, rfl⟩ | ⟨-, a, ha, hl⟩
    · exact issued_of_isCurrent (hp.current v hv)
    · exact hc.issued j a ha v (hl.guards ▸ hv)
  registered := fun j a' ha' v hv hcur => by
    rw [hs.versions] at hcur ⊢
    rcases hs.cases ha' with ⟨rfl, rfl⟩ | ⟨-, a, ha, hl⟩
    · exact (hp.dependents v.location).2 ⟨v, hv, rfl⟩
    · exact hc.registered j a ha v (hl.guards ▸ hv) hcur
  dependent := fun l d hd => by
    rw [hs.versions] at hd
    rw [hs.next]
    refine ⟨(hc.dependent l d hd).1, fun a' ha' => ?_⟩
    rcases hs.cases ha' with ⟨rfl, rfl⟩ | ⟨-, a, ha, hl⟩
    · exact (hp.dependents l).1 hd
    · rw [hl.guards]
      exact (hc.dependent l d hd).2 a ha

def newLoop (h : Handle) (s : Site) (g : Guards) (ops : List Op) : Artifact :=
  { handle := h, kind := .loop, site := s, guards := g, operations := ops }

def newBridge (h parent : Handle) (s : Site) (failIndex : Nat) (g : Guards) (ops : List Op) :
    Artifact :=
  { handle := h, kind := .bridge parent failIndex, site := s, guards := g, operations := ops }

def putLoop (c : Cache) (h : Handle) (s : Site) (g : Guards) (ops : List Op) : Cache :=
  { c with
    loops := c.loops.insert s h
    artifacts := c.artifacts.insert h (newLoop h s g ops) }

def putBridge (c : Cache) (h parent : Handle) (s : Site) (failIndex : Nat) (g : Guards)
    (ops : List Op) : Cache :=
  { c with
    artifacts := (c.artifacts.modify parent fun p => p.attach failIndex h).insert h
      (newBridge h parent s failIndex g ops) }

def vacate (c : Cache) (s : Site) : Cache × List Handle :=
  match c.loop? s with
  | some old => c.retire old
  | none => (c, [])

section

variable {c : Cache} {s : Site} {g : Guards} {ops : List Op}

theorem addLoop_eq :
    c.addLoop s g ops = match (c.register g).2 with
      | .error l => ((c.register g).1, .error l)
      | .ok h => ((((c.register g).1.vacate s).1.putLoop h s g ops),
          .ok ⟨h, ((c.register g).1.vacate s).2⟩) := by
  unfold addLoop
  cases hr : c.register g with
  | mk c' r =>
      cases r with
      | error l => rfl
      | ok h => rfl

theorem addBridge_eq {parent : Handle} {failIndex : Nat} :
    c.addBridge parent s failIndex g ops = match (c.register g).2 with
      | .error l => ((c.register g).1, .error l)
      | .ok h => ((c.register g).1.putBridge h parent s failIndex g ops, .ok h) := by
  unfold addBridge
  cases hr : c.register g with
  | mk c' r =>
      cases r with
      | error l => rfl
      | ok h => rfl

@[simp] theorem get?_putLoop (h j : Handle) :
    (c.putLoop h s g ops).get? j = if j = h then some (newLoop h s g ops) else c.get? j :=
  FinMap.find?_insert c.artifacts h j _

@[simp] theorem loop?_putLoop (h : Handle) (s' : Site) :
    (c.putLoop h s g ops).loop? s' = if s' = s then some h else c.loop? s' :=
  FinMap.find?_insert c.loops s s' h

@[simp] theorem get?_putBridge (h parent : Handle) (failIndex : Nat) (j : Handle) :
    (c.putBridge h parent s failIndex g ops).get? j =
      if j = h then some (newBridge h parent s failIndex g ops)
      else if j = parent then (c.get? j).map fun p => p.attach failIndex h else c.get? j := by
  refine (FinMap.find?_insert _ h j _).trans ?_
  rw [FinMap.find?_modify]
  rfl

theorem vacate_of_none (hs : c.loop? s = none) : c.vacate s = (c, []) := by
  rw [vacate, hs]

theorem vacate_of_some {h : Handle} (hs : c.loop? s = some h) : c.vacate s = c.retire h := by
  rw [vacate, hs]

/-- Retiring the loop of a site leaves the loops of the others. -/
theorem loop?_vacate (hc : c.Sound) (s s' : Site) :
    (c.vacate s).1.loop? s' = if s' = s then none else c.loop? s' := by
  cases hl : c.loop? s with
  | none =>
      rw [vacate_of_none hl]
      split_ifs with hs
      · rw [hs, hl]
      · rfl
  | some old =>
      obtain ⟨a, ha, hk, rfl⟩ := (hc.loop_iff s old).1 hl
      rw [vacate_of_some hl]
      exact (retire_loop_spec hc ha hk).2.2.2.1 s'

theorem without_vacate (hc : c.Sound) (s : Site) :
    c.Without (c.vacate s).1 (c.vacate s).2 ∧ (c.vacate s).1.loop? s = none := by
  refine ⟨?_, by rw [loop?_vacate hc, if_pos rfl]⟩
  cases hl : c.loop? s with
  | none =>
      rw [vacate_of_none hl]
      exact Without.refl hc
  | some old =>
      rw [vacate_of_some hl]
      exact without_retire hc old

theorem loop?_retire (hc : c.Sound) {h : Handle} (hs : c.loop? s = some h) :
    (c.retire h).1.loop? s = none := by
  rw [← vacate_of_some hs, loop?_vacate hc, if_pos rfl]

theorem stores_putLoop {h : Handle} (hs : c.loop? s = none) :
    c.Stores (c.putLoop h s g ops) h (newLoop h s g ops) where
  versions := rfl
  next := rfl
  stored := by rw [get?_putLoop, if_pos rfl]
  others := fun j a' hj ha' => by
    rw [get?_putLoop, if_neg hj] at ha'
    exact ⟨a', ha', Artifact.Like.refl a'⟩
  kept := fun j a hj ha => ⟨a, by rw [get?_putLoop, if_neg hj, ha], Artifact.Like.refl a⟩
  loops := fun s' j => by
    rw [loop?_putLoop]
    split_ifs with hs'
    · subst hs'
      rw [hs]
      simp [newLoop, eq_comm]
    · simp [newLoop, Ne.symm hs']
  bridges := fun j a a' i b hj ha ha' hb => by
    rw [get?_putLoop, if_neg hj, ha] at ha'
    exact Or.inl (Option.some.inj ha' ▸ hb)
  parent := fun p i hk => by cases hk
  childless := fun i => rfl

theorem get?_putBridge_of_ne {h parent : Handle} {failIndex : Nat} {j : Handle} {a : Artifact}
    (hj : j ≠ h) (ha : c.get? j = some a) :
    (c.putBridge h parent s failIndex g ops).get? j =
      some (if j = parent then a.attach failIndex h else a) := by
  rw [get?_putBridge, if_neg hj, ha]
  split_ifs <;> rfl

theorem of_get?_putBridge {h parent : Handle} {failIndex : Nat} {j : Handle} {a' : Artifact}
    (ha' : (c.putBridge h parent s failIndex g ops).get? j = some a') :
    j = h ∧ a' = newBridge h parent s failIndex g ops ∨
      j ≠ h ∧ ∃ a, c.get? j = some a ∧
        a' = if j = parent then a.attach failIndex h else a := by
  rw [get?_putBridge] at ha'
  by_cases hj : j = h
  · rw [if_pos hj] at ha'
    exact Or.inl ⟨hj, (Option.some.inj ha').symm⟩
  · rw [if_neg hj] at ha'
    refine Or.inr ⟨hj, ?_⟩
    split_ifs at ha' ⊢ with hjp
    · obtain ⟨a, ha, rfl⟩ := Option.map_eq_some_iff.1 ha'
      exact ⟨a, ha, rfl⟩
    · exact ⟨a', ha', rfl⟩

theorem like_attached {parent h j : Handle} {failIndex : Nat} {a : Artifact} :
    a.Like (if j = parent then a.attach failIndex h else a) := by
  split_ifs
  · exact a.like_attach failIndex h
  · exact Artifact.Like.refl a

theorem stores_putBridge {h parent : Handle} {p : Artifact} {failIndex : Nat}
    (hparent : c.get? parent = some p) (hk : p.kind = .loop) :
    c.Stores (c.putBridge h parent p.site failIndex g ops) h
      (newBridge h parent p.site failIndex g ops) where
  versions := rfl
  next := rfl
  stored := by rw [get?_putBridge, if_pos rfl]
  others := fun j a' hj ha' => by
    obtain ⟨a, ha, rfl⟩ := ((of_get?_putBridge ha').resolve_left fun h => hj h.1).2
    exact ⟨a, ha, like_attached⟩
  kept := fun j a hj ha => ⟨_, get?_putBridge_of_ne hj ha, like_attached⟩
  loops := fun s' j => by
    simp only [newBridge, reduceCtorEq, false_and, and_false, or_false]
    rfl
  bridges := fun j a a' i b hj ha ha' hb => by
    rw [get?_putBridge_of_ne hj ha] at ha'
    obtain rfl := Option.some.inj ha'
    split_ifs at hb with hjp
    · subst hjp
      obtain rfl := Option.some.inj (hparent.symm.trans ha)
      simp only [Artifact.attach, FinMap.find?_insert] at hb
      split_ifs at hb with hi
      · exact Or.inr ⟨(Option.some.inj hb).symm, hk, by rw [hi]; rfl, rfl⟩
      · exact Or.inl hb
    · exact Or.inl hb
  parent := fun q i hq => by
    cases hq
    exact ⟨p, hparent, hk, rfl⟩
  childless := fun i => rfl

/-! ## Installing -/

theorem addLoop_of_stale {v : Version} (hg : g.firstStale? c.versions = some v) :
    c.addLoop s g ops = ((c.register g).1, .error v.location) := by
  rw [addLoop_eq, (register_spec c g).2.2.1, hg]

theorem addLoop_of_current (hg : g.firstStale? c.versions = none) :
    c.addLoop s g ops = (((c.register g).1.vacate s).1.putLoop ⟨c.next⟩ s g ops,
      .ok ⟨⟨c.next⟩, ((c.register g).1.vacate s).2⟩) := by
  rw [addLoop_eq, (register_spec c g).2.2.1, hg]

/-- What is installed has the next handle, and it replaces what its site had. -/
theorem of_addLoop_ok {c' : Cache} {i : LoopInstall} (hi : c.addLoop s g ops = (c', .ok i)) :
    i = ⟨⟨c.next⟩, ((c.register g).1.vacate s).2⟩ ∧
      c' = ((c.register g).1.vacate s).1.putLoop ⟨c.next⟩ s g ops := by
  cases hg : g.firstStale? c.versions with
  | some v =>
      rw [addLoop_of_stale hg] at hi
      cases hi
  | none =>
      rw [addLoop_of_current hg] at hi
      cases hi
      exact ⟨rfl, rfl⟩

theorem of_addLoop_error {c' : Cache} {l : Location} (hi : c.addLoop s g ops = (c', .error l)) :
    c' = (c.register g).1 := by
  cases hg : g.firstStale? c.versions with
  | some v =>
      rw [addLoop_of_stale hg] at hi
      cases hi
      rfl
  | none =>
      rw [addLoop_of_current hg] at hi
      cases hi

theorem addBridge_of_stale {parent : Handle} {failIndex : Nat} {v : Version}
    (hg : g.firstStale? c.versions = some v) :
    c.addBridge parent s failIndex g ops = ((c.register g).1, .error v.location) := by
  rw [addBridge_eq, (register_spec c g).2.2.1, hg]

theorem addBridge_of_current {parent : Handle} {failIndex : Nat}
    (hg : g.firstStale? c.versions = none) :
    c.addBridge parent s failIndex g ops =
      ((c.register g).1.putBridge ⟨c.next⟩ parent s failIndex g ops, .ok ⟨c.next⟩) := by
  rw [addBridge_eq, (register_spec c g).2.2.1, hg]

theorem Sound.addLoop (hc : c.Sound) (s : Site) (g : Guards) (ops : List Op) :
    (c.addLoop s g ops).1.Sound := by
  cases hg : g.firstStale? c.versions with
  | some v =>
      rw [addLoop_of_stale hg]
      exact hc.register g
  | none =>
      obtain ⟨hw, hs⟩ := without_vacate (hc.register g) s
      rw [addLoop_of_current hg]
      exact ((hc.pending_register hg).without hw).sound_of_stores (hw.sound (hc.register g))
        (stores_putLoop hs) rfl

theorem Sound.addBridge (hc : c.Sound) {parent : Handle} {p : Artifact}
    (hp : c.get? parent = some p) (hk : p.kind = .loop) (failIndex : Nat) (g : Guards)
    (ops : List Op) : (c.addBridge parent p.site failIndex g ops).1.Sound := by
  cases hg : g.firstStale? c.versions with
  | some v =>
      rw [addBridge_of_stale hg]
      exact hc.register g
  | none =>
      rw [addBridge_of_current hg]
      exact (hc.pending_register hg).sound_of_stores (hc.register g) (stores_putBridge hp hk) rfl

theorem installLoop_eq (e : EntryPoint) (k : Key) (shapes : Shapes) :
    installLoop e k g ops (shapes, c) = match shapes.check e k with
      | .ok shapes => .ok (c.addLoop (e.site k) g ops).2 (shapes, (c.addLoop (e.site k) g ops).1)
      | .error f => .error f (shapes, c) := by
  unfold installLoop
  simp only [bind, EStateM.bind, Shapes.checkKey]
  cases shapes.check e k <;> rfl

theorem of_installLoop {e : EntryPoint} {k : Key} {shapes shapes' : Shapes} {c' : Cache}
    {r : Except Location LoopInstall}
    (hi : installLoop e k g ops (shapes, c) = .ok r (shapes', c')) :
    shapes.check e k = .ok shapes' ∧ c.addLoop (e.site k) g ops = (c', r) := by
  rw [installLoop_eq] at hi
  cases hcheck : shapes.check e k with
  | error f =>
      rw [hcheck] at hi
      cases hi
  | ok s =>
      rw [hcheck] at hi
      cases hi
      exact ⟨rfl, rfl⟩

theorem of_installBridge {parent : Handle} {failIndex : Nat} {c' : Cache}
    {r : Except Location Handle} (hi : installBridge parent failIndex g ops c = .ok r c') :
    ∃ p, c.get? parent = some p ∧ p.kind = .loop ∧
      c.addBridge parent p.site failIndex g ops = (c', r) := by
  unfold installBridge at hi
  cases hp : c.get? parent with
  | none =>
      rw [hp] at hi
      cases hi
  | some p =>
      rw [hp] at hi
      dsimp only at hi
      split_ifs at hi with hloop
      cases hi
      exact ⟨p, rfl, hloop, rfl⟩

theorem next_addLoop (hc : c.Sound) (s : Site) (g : Guards) (ops : List Op) :
    (c.addLoop s g ops).1.next = c.next + 1 := by
  cases hg : g.firstStale? c.versions with
  | some v =>
      rw [addLoop_of_stale hg]
      rfl
  | none =>
      rw [addLoop_of_current hg]
      exact (without_vacate (hc.register g) s).1.next

theorem next_addBridge (c : Cache) (parent : Handle) (s : Site) (failIndex : Nat) (g : Guards)
    (ops : List Op) : (c.addBridge parent s failIndex g ops).1.next = c.next + 1 := by
  rw [addBridge_eq]
  cases (c.register g).2 <;> rfl

theorem sameVersions_addLoop (hc : c.Sound) (s : Site) (g : Guards) (ops : List Op) :
    SameVersions c.versions (c.addLoop s g ops).1.versions := by
  have hv := (register_spec c g).1
  cases hg : g.firstStale? c.versions with
  | some v =>
      rw [addLoop_of_stale hg]
      exact hv
  | none =>
      rw [addLoop_of_current hg]
      exact hv.trans (without_vacate (hc.register g) s).1.versions

theorem sameVersions_addBridge (c : Cache) (parent : Handle) (s : Site) (failIndex : Nat)
    (g : Guards) (ops : List Op) :
    SameVersions c.versions (c.addBridge parent s failIndex g ops).1.versions := by
  have hv := (register_spec c g).1
  cases hg : g.firstStale? c.versions with
  | some v =>
      rw [addBridge_of_stale hg]
      exact hv
  | none =>
      rw [addBridge_of_current hg]
      exact hv

end

/-! ## Entering -/

theorem enter_of_dead {c : Cache} {h : Handle} (ha : c.get? h = none) : c.enter h = (c, .dead) := by
  simp only [enter, ha]

theorem enter_of_current {c : Cache} {h : Handle} {a : Artifact} (ha : c.get? h = some a)
    (hg : a.guards.firstStale? c.versions = none) :
    c.enter h = ({ c with artifacts := c.artifacts.modify h Artifact.entered }, .entered) := by
  simp only [enter, ha, hg]

theorem enter_of_stale {c : Cache} {h : Handle} {a : Artifact} {v : Version}
    (ha : c.get? h = some a) (hg : a.guards.firstStale? c.versions = some v) :
    c.enter h = ((c.retire h).1, .guardFailed v.location (c.retire h).2) := by
  simp only [enter, ha, hg]

/-- Everything that entering can do. -/
theorem enter_cases (c : Cache) (h : Handle) :
    c.get? h = none ∧ c.enter h = (c, .dead) ∨
      (∃ a, c.get? h = some a ∧ a.guards.firstStale? c.versions = none ∧
        c.enter h = ({ c with artifacts := c.artifacts.modify h Artifact.entered }, .entered)) ∨
      ∃ a v, c.get? h = some a ∧ a.guards.firstStale? c.versions = some v ∧
        c.enter h = ((c.retire h).1, .guardFailed v.location (c.retire h).2) := by
  cases ha : c.get? h with
  | none => exact Or.inl ⟨rfl, enter_of_dead ha⟩
  | some a =>
      refine Or.inr ?_
      cases hg : a.guards.firstStale? c.versions with
      | none => exact Or.inl ⟨a, rfl, hg, enter_of_current ha hg⟩
      | some v => exact Or.inr ⟨a, v, rfl, hg, enter_of_stale ha hg⟩

theorem enter_dead_iff {c : Cache} {h : Handle} : (c.enter h).2 = .dead ↔ c.get? h = none := by
  rcases enter_cases c h with ⟨ha, he⟩ | ⟨a, ha, -, he⟩ | ⟨a, v, ha, -, he⟩ <;> simp [ha, he]

theorem enter_entered_iff {c : Cache} {h : Handle} :
    (c.enter h).2 = .entered ↔
      ∃ a, c.get? h = some a ∧ a.guards.firstStale? c.versions = none := by
  rcases enter_cases c h with ⟨ha, he⟩ | ⟨a, ha, hg, he⟩ | ⟨a, v, ha, hg, he⟩
  · simp [ha, he]
  · simp [ha, he, hg]
  · simp [ha, he, hg]

theorem enter_guardFailed_iff {c : Cache} {h : Handle} {l : Location} :
    (∃ retired, (c.enter h).2 = .guardFailed l retired) ↔
      ∃ a v, c.get? h = some a ∧ a.guards.firstStale? c.versions = some v ∧ v.location = l := by
  rcases enter_cases c h with ⟨ha, he⟩ | ⟨a, ha, hg, he⟩ | ⟨a, v, ha, hg, he⟩
  · simp [ha, he]
  · simp [ha, he, hg]
  · simp [ha, he, hg]

theorem get?_entered (c : Cache) (h j : Handle) :
    get? { c with artifacts := c.artifacts.modify h Artifact.entered } j =
      if j = h then (c.get? j).map Artifact.entered else c.get? j :=
  FinMap.find?_modify c.artifacts h j _

theorem of_get?_entered {c : Cache} {h j : Handle} {a' : Artifact}
    (ha' : get? { c with artifacts := c.artifacts.modify h Artifact.entered } j = some a') :
    ∃ a n, c.get? j = some a ∧ a' = { a with entries := n } := by
  rw [get?_entered] at ha'
  split_ifs at ha' with hj
  · obtain ⟨a, ha, rfl⟩ := Option.map_eq_some_iff.1 ha'
    exact ⟨a, a.entries + 1, ha, rfl⟩
  · exact ⟨a', a'.entries, ha', rfl⟩

theorem get?_entered_of_some {c : Cache} {j : Handle} {a : Artifact} (ha : c.get? j = some a)
    (h : Handle) : ∃ n, get? { c with artifacts := c.artifacts.modify h Artifact.entered } j =
      some { a with entries := n } := by
  rw [get?_entered, ha]
  split_ifs
  · exact ⟨a.entries + 1, rfl⟩
  · exact ⟨a.entries, rfl⟩

theorem Sound.entered {c : Cache} (hc : c.Sound) (h : Handle) :
    Sound { c with artifacts := c.artifacts.modify h Artifact.entered } where
  versions := hc.versions
  handle := fun j a' ha' => by
    obtain ⟨a, n, ha, rfl⟩ := of_get?_entered ha'
    exact hc.handle j a ha
  loop_iff := fun s j => by
    refine (hc.loop_iff s j).trans ?_
    constructor
    · rintro ⟨a, ha, hk, hs⟩
      obtain ⟨n, ha'⟩ := get?_entered_of_some ha h
      exact ⟨_, ha', hk, hs⟩
    · rintro ⟨a', ha', hk, hs⟩
      obtain ⟨a, n, ha, rfl⟩ := of_get?_entered ha'
      exact ⟨a, ha, hk, hs⟩
  bridge := fun j a' i b ha' hb => by
    obtain ⟨a, n, ha, rfl⟩ := of_get?_entered ha'
    obtain ⟨hk, ba, hba, hbk, hbs⟩ := hc.bridge j a i b ha hb
    obtain ⟨m, hba'⟩ := get?_entered_of_some hba h
    exact ⟨hk, _, hba', hbk, hbs⟩
  parent := fun b ba' p i hba' hk => by
    obtain ⟨ba, n, hba, rfl⟩ := of_get?_entered hba'
    obtain ⟨hlt, hp⟩ := hc.parent b ba p i hba hk
    refine ⟨hlt, fun pa' hpa' => ?_⟩
    obtain ⟨pa, m, hpa, rfl⟩ := of_get?_entered hpa'
    exact hp pa hpa
  issued := fun j a' ha' => by
    obtain ⟨a, n, ha, rfl⟩ := of_get?_entered ha'
    exact hc.issued j a ha
  registered := fun j a' ha' => by
    obtain ⟨a, n, ha, rfl⟩ := of_get?_entered ha'
    exact hc.registered j a ha
  dependent := fun l d hd => by
    refine ⟨(hc.dependent l d hd).1, fun a' ha' => ?_⟩
    obtain ⟨a, n, ha, rfl⟩ := of_get?_entered ha'
    exact (hc.dependent l d hd).2 a ha

theorem Sound.enter {c : Cache} (hc : c.Sound) (h : Handle) : (c.enter h).1.Sound := by
  rcases enter_cases c h with ⟨-, he⟩ | ⟨a, -, -, he⟩ | ⟨a, v, -, -, he⟩ <;> rw [he]
  · exact hc
  · exact hc.entered h
  · exact (without_retire hc h).sound hc

theorem sameVersions_enter {c : Cache} (hc : c.Sound) (h : Handle) :
    SameVersions c.versions (c.enter h).1.versions := by
  rcases enter_cases c h with ⟨-, he⟩ | ⟨a, -, -, he⟩ | ⟨a, v, -, -, he⟩ <;> rw [he]
  · exact SameVersions.refl _
  · exact SameVersions.refl _
  · exact (without_retire hc h).versions

theorem of_enter_entered {c : Cache} {h : Handle} (he : (c.enter h).2 = .entered) :
    ∃ a, c.get? h = some a ∧ (∀ v ∈ a.guards.captured, c.versions.IsCurrent v) ∧
      (c.enter h).1 = { c with artifacts := c.artifacts.modify h Artifact.entered } := by
  obtain ⟨a, ha, hg⟩ := enter_entered_iff.1 he
  exact ⟨a, ha, (firstStale?_eq_none_iff _ _).1 hg, by rw [enter_of_current ha hg]⟩

/-- Entering adds no artifact and changes no body. -/
theorem body_enter {c : Cache} (hc : c.Sound) {h j : Handle} {a' : Artifact}
    (ha' : (c.enter h).1.get? j = some a') : ∃ a, c.get? j = some a ∧ a.SameBody a' := by
  rcases enter_cases c h with ⟨-, he⟩ | ⟨b, -, -, he⟩ | ⟨b, v, -, -, he⟩ <;> rw [he] at ha'
  · exact ⟨a', ha', Artifact.SameBody.refl a'⟩
  · obtain ⟨a, n, haj, rfl⟩ := of_get?_entered ha'
    exact ⟨a, haj, rfl, rfl, rfl⟩
  · obtain ⟨a, haj, hl⟩ := (without_retire hc h).live j a' ha'
    exact ⟨a, haj, hl.sameBody⟩

theorem body_addLoop {c : Cache} (hc : c.Sound) {s : Site} {g : Guards} {ops : List Op} {j : Handle}
    {a' : Artifact} (ha' : (c.addLoop s g ops).1.get? j = some a') :
    a'.kind = .loop ∧ a'.guards = g ∧ a'.operations = ops ∨
      ∃ a, c.get? j = some a ∧ a.SameBody a' := by
  cases hg : g.firstStale? c.versions with
  | some v =>
      rw [addLoop_of_stale hg] at ha'
      exact Or.inr ⟨a', ha', Artifact.SameBody.refl a'⟩
  | none =>
      rw [addLoop_of_current hg, get?_putLoop] at ha'
      split_ifs at ha' with hj
      · obtain rfl := Option.some.inj ha'
        exact Or.inl ⟨rfl, rfl, rfl⟩
      · obtain ⟨a, ha, hl⟩ := (without_vacate (hc.register g) s).1.live j a' ha'
        exact Or.inr ⟨a, ha, hl.sameBody⟩

theorem body_addBridge {c : Cache} {parent : Handle} {s : Site} {i : Nat} {g : Guards}
    {ops : List Op} {j : Handle} {a' : Artifact}
    (ha' : (c.addBridge parent s i g ops).1.get? j = some a') :
    a'.kind = .bridge parent i ∧ a'.guards = g ∧ a'.operations = ops ∨
      ∃ a, c.get? j = some a ∧ a.SameBody a' := by
  cases hg : g.firstStale? c.versions with
  | some v =>
      rw [addBridge_of_stale hg] at ha'
      exact Or.inr ⟨a', ha', Artifact.SameBody.refl a'⟩
  | none =>
      rw [addBridge_of_current hg] at ha'
      rcases of_get?_putBridge ha' with ⟨rfl, rfl⟩ | ⟨-, a, ha, rfl⟩
      · exact Or.inl ⟨rfl, rfl, rfl⟩
      · refine Or.inr ⟨a, ha, ?_⟩
        split_ifs <;> exact ⟨rfl, rfl, rfl⟩

theorem live_enter {c : Cache} (hc : c.Sound) {h j : Handle} {a' : Artifact}
    (ha' : (c.enter h).1.get? j = some a') : ∃ a, c.get? j = some a ∧ a'.guards = a.guards :=
  (body_enter hc ha').imp fun _ h => ⟨h.1, h.2.guards⟩

theorem live_addLoop {c : Cache} (hc : c.Sound) {s : Site} {g : Guards} {ops : List Op} {j : Handle}
    {a' : Artifact} (ha' : (c.addLoop s g ops).1.get? j = some a') :
    a'.guards = g ∨ ∃ a, c.get? j = some a ∧ a'.guards = a.guards :=
  (body_addLoop hc ha').imp (fun h => h.2.1) fun h => h.imp fun _ h => ⟨h.1, h.2.guards⟩

theorem live_addBridge {c : Cache} {parent : Handle} {s : Site} {i : Nat} {g : Guards}
    {ops : List Op} {j : Handle} {a' : Artifact}
    (ha' : (c.addBridge parent s i g ops).1.get? j = some a') :
    a'.guards = g ∨ ∃ a, c.get? j = some a ∧ a'.guards = a.guards :=
  (body_addBridge ha').imp (fun h => h.2.1) fun h => h.imp fun _ h => ⟨h.1, h.2.guards⟩

/-! ## Later caches -/

/-- What was installed in `c` is in the cache `c'` as it was, or gone, and no handle comes back. -/
structure Later (c c' : Cache) : Prop where
  next : c.next ≤ c'.next
  live : ∀ h a', h.number < c.next → c'.get? h = some a' →
    ∃ a, c.get? h = some a ∧ a'.kind = a.kind ∧ a'.site = a.site ∧ a'.guards = a.guards

namespace Later

variable {c c' c'' : Cache}

theorem refl (c : Cache) : c.Later c :=
  ⟨le_rfl, fun _ a _ ha => ⟨a, ha, rfl, rfl, rfl⟩⟩

theorem trans (h : c.Later c') (h' : c'.Later c'') : c.Later c'' := by
  refine ⟨h.next.trans h'.next, fun j a'' hj ha'' => ?_⟩
  obtain ⟨a', ha', hk', hs', hg'⟩ := h'.live j a'' (hj.trans_le h.next) ha''
  obtain ⟨a, ha, hk, hs, hg⟩ := h.live j a' hj ha'
  exact ⟨a, ha, hk'.trans hk, hs'.trans hs, hg'.trans hg⟩

theorem dead (h : c.Later c') {j : Handle} (hj : j.number < c.next) (hd : c.get? j = none) :
    c'.get? j = none := by
  cases ha' : c'.get? j with
  | none => rfl
  | some a' =>
      obtain ⟨a, ha, -⟩ := h.live j a' hj ha'
      rw [hd] at ha
      cases ha

end Later

section

variable {c c' : Cache}

theorem Without.later {gone : List Handle} (hw : c.Without c' gone) : c.Later c' := by
  refine ⟨hw.next.ge, fun h a' _ ha' => ?_⟩
  obtain ⟨a, ha, hl⟩ := hw.live h a' ha'
  exact ⟨a, ha, hl.kind, hl.site, hl.guards⟩

theorem later_versions (c : Cache) (t : Versions) : c.Later { c with versions := t } :=
  ⟨le_rfl, fun _ a _ ha => ⟨a, ha, rfl, rfl, rfl⟩⟩

theorem later_register (c : Cache) (g : Guards) : c.Later (c.register g).1 :=
  ⟨Nat.le_succ _, fun _ a _ ha => ⟨a, ha, rfl, rfl, rfl⟩⟩

theorem later_addLoop (hc : c.Sound) (s : Site) (g : Guards) (ops : List Op) :
    c.Later (c.addLoop s g ops).1 := by
  cases hg : g.firstStale? c.versions with
  | some v =>
      rw [addLoop_of_stale hg]
      exact later_register c g
  | none =>
      rw [addLoop_of_current hg]
      have hl := (later_register c g).trans (without_vacate (hc.register g) s).1.later
      refine ⟨hl.next, fun h a' hh ha' => hl.live h a' hh ?_⟩
      rw [get?_putLoop, if_neg] at ha'
      · exact ha'
      · rintro rfl
        exact lt_irrefl _ hh

theorem later_addBridge (c : Cache) (parent : Handle) (s : Site) (failIndex : Nat) (g : Guards)
    (ops : List Op) : c.Later (c.addBridge parent s failIndex g ops).1 := by
  cases hg : g.firstStale? c.versions with
  | some v =>
      rw [addBridge_of_stale hg]
      exact later_register c g
  | none =>
      rw [addBridge_of_current hg]
      refine ⟨Nat.le_succ _, fun h a' hh ha' => ?_⟩
      rcases of_get?_putBridge ha' with ⟨rfl, -⟩ | ⟨-, a, ha, rfl⟩
      · exact absurd hh (lt_irrefl _)
      · refine ⟨a, ha, ?_⟩
        split_ifs <;> exact ⟨rfl, rfl, rfl⟩

theorem later_enter (hc : c.Sound) (h : Handle) : c.Later (c.enter h).1 := by
  rcases enter_cases c h with ⟨-, he⟩ | ⟨a, -, -, he⟩ | ⟨a, v, -, -, he⟩ <;> rw [he]
  · exact Later.refl c
  · refine ⟨le_rfl, fun j a' _ ha' => ?_⟩
    obtain ⟨b, n, hb, rfl⟩ := of_get?_entered ha'
    exact ⟨b, hb, rfl, rfl, rfl⟩
  · exact (without_retire hc h).later

end

end Cache

end HotLoop.Code
