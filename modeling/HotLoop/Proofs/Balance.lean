import HotLoop.Proofs.Counts
import HotLoop.Proofs.Repetition

/-!
# Balanced books

Where each handle is announced once, a ledger keeps just what was announced and not retired: its
counters differ by the number of these handles, and the loop of a bridge is known just as long, even
if that loop was retired first. A handle is retired with effect just by the first call behind its
announcement.
-/

namespace HotLoop.Lifecycle

open Trace

def unretired (f : Act → Option Handle) (acts : List Act) : List Handle :=
  (acts.filterMap f).filter fun h => .retire h ∉ acts

/-- One of the calls was accepted and announced `h`, and none of the calls behind it retires `h`. -/
def Outstanding (acts : List Act) (s : Shapes × Monitor) (h : Handle) : Prop :=
  ∃ past a rest, acts = past ++ a :: rest ∧ a.Taken (Act.performAll past s) = true ∧
    a.announced? = some h ∧ .retire h ∉ rest

section

variable {acts past rest : List Act} {a : Act} {l l' : Ledger} {h b p : Handle}

theorem Act.announced?_of_compiled? (ha : a.compiled? = some h) : a.announced? = some h := by
  obtain ⟨⟨j, s⟩, hs, rfl⟩ := Option.map_eq_some_iff.1 ha
  exact announced?_of_loop? hs

theorem Act.announced?_of_bridged? (ha : a.bridged? = some h) : a.announced? = some h := by
  obtain ⟨⟨j, q⟩, hq, rfl⟩ := Option.map_eq_some_iff.1 ha
  exact announced?_of_bridge? hq

theorem Act.bridged?_of_compiled? (ha : a.compiled? = some h) : a.bridged? = none := by
  obtain ⟨⟨j, s⟩, hs, -⟩ := Option.map_eq_some_iff.1 ha
  rw [bridged?, bridge?_of_loop? hs, Option.map_none]

theorem announced_once (hn : ((past ++ a :: rest).filterMap Act.announced?).Nodup)
    (ha : a.announced? = some h) : ∀ x ∈ past ++ rest, x.announced? ≠ some h := by
  rw [List.filterMap_append, List.filterMap_cons_some ha, List.nodup_middle, List.nodup_cons,
    ← List.filterMap_append] at hn
  exact fun x hx hh => hn.1 (List.mem_filterMap.2 ⟨x, hx, hh⟩)

namespace Ledger

theorem Behind.announced_of_retire (hl : Behind (past ++ .retire h :: rest) l) :
    ∃ a ∈ past, a.announced? = some h := by
  obtain ⟨l₀, l₁, hl₀, ht⟩ := hl.split
  have hloop : (∃ s, l₀.loops.find? h = some s) → ∃ a ∈ past, a.announced? = some h := by
    intro hs
    obtain ⟨before, a, after, rfl, ha, -⟩ := hl₀.loopKept_iff.1 hs
    exact ⟨a, by simp, Act.announced?_of_compiled? ha⟩
  cases ht with
  | retireBridge hb =>
      obtain ⟨before, a, after, rfl, ha, -⟩ := hl₀.bridgeKept_iff.1 ⟨_, hb⟩
      exact ⟨a, by simp, Act.announced?_of_bridged? ha⟩
  | retireLoop hb hs hp => exact hloop ⟨_, hs⟩
  | retireReplaced hb hs hp => exact hloop ⟨_, hs⟩

section

variable (hl : Behind acts l) (hn : (acts.filterMap Act.announced?).Nodup)

include hl hn

/-- What is announced and not retired was not retired since it was announced. -/
theorem Behind.mem_unretired_iff {f : Act → Option Handle}
    (hf : ∀ a h, f a = some h → a.announced? = some h) :
    h ∈ unretired f acts ↔
      ∃ past a rest, acts = past ++ a :: rest ∧ f a = some h ∧ ∀ x ∈ rest, x ≠ .retire h := by
  simp only [unretired, List.mem_filter, List.mem_filterMap, decide_eq_true_eq]
  constructor
  · rintro ⟨⟨a, ha, hah⟩, hr⟩
    obtain ⟨past, rest, rfl⟩ := List.append_of_mem ha
    exact ⟨past, a, rest, rfl, hah, fun x hx he => hr (by simp [← he, hx])⟩
  · rintro ⟨past, a, rest, rfl, hah, hrest⟩
    refine ⟨⟨a, by simp, hah⟩, fun hr => ?_⟩
    rcases List.mem_append.1 hr with hr | hr
    · obtain ⟨before, after, rfl⟩ := List.append_of_mem hr
      rw [List.append_assoc, List.cons_append] at hl
      obtain ⟨x, hx, hxh⟩ := hl.announced_of_retire
      exact announced_once hn (hf a h hah) x (by simp [hx]) hxh
    · rcases List.mem_cons.1 hr with rfl | hr
      · exact nomatch hf _ h hah
      · exact hrest _ hr rfl

theorem Behind.bridge_kept_iff :
    (∃ p, l.bridges.find? h = some p) ↔ h ∈ unretired Act.bridged? acts := by
  rw [hl.bridgeKept_iff, hl.mem_unretired_iff hn fun _ _ => Act.announced?_of_bridged?]
  rfl

theorem Behind.loop_kept_iff :
    (∃ s, l.loops.find? h = some s) ↔ h ∈ unretired Act.compiled? acts := by
  rw [hl.loopKept_iff, hl.mem_unretired_iff hn fun _ _ => Act.announced?_of_compiled?]
  constructor
  · rintro ⟨past, a, rest, rfl, ha, hrest⟩
    refine ⟨past, a, rest, rfl, ha, ?_⟩
    rintro x hx rfl
    obtain ⟨before, after, rfl⟩ := List.append_of_mem hx
    -- The handle would have to be announced as a bridge, too.
    obtain ⟨past', b, rest', he, hb, -⟩ := hrest before after rfl
    have hmem : b ∈ past ++ a :: before := he ▸ by simp
    rcases List.mem_append.1 hmem with hmem | hmem
    · exact announced_once hn (Act.announced?_of_compiled? ha) b (by simp [hmem])
        (Act.announced?_of_bridged? hb)
    · rcases List.mem_cons.1 hmem with rfl | hmem
      · rw [Act.bridged?_of_compiled? ha] at hb
        cases hb
      · exact announced_once hn (Act.announced?_of_compiled? ha) b (by simp [hmem])
          (Act.announced?_of_bridged? hb)
  · rintro ⟨past, a, rest, rfl, ha, hrest⟩
    exact loopKept_of_not_retired ha fun hr => hrest _ hr rfl

/-- A handle is known as long as it is announced and not retired. -/
theorem Behind.retire?_iff :
    (∃ l', l.retire? h = some l') ↔ h ∈ unretired Act.announced? acts := by
  have hknown : (∃ l', l.retire? h = some l') ↔
      (∃ p, l.bridges.find? h = some p) ∨ ∃ s, l.loops.find? h = some s := by
    cases hb : l.bridges.find? h <;> cases hs : l.loops.find? h <;>
      simp [retire?, FinMap.contains, hb, hs]
  rw [hknown, hl.bridge_kept_iff hn, hl.loop_kept_iff hn,
    hl.mem_unretired_iff hn fun _ _ => Act.announced?_of_bridged?,
    hl.mem_unretired_iff hn fun _ _ => Act.announced?_of_compiled?,
    hl.mem_unretired_iff hn fun _ _ => id]
  constructor
  · rintro (⟨past, a, rest, he, ha, hr⟩ | ⟨past, a, rest, he, ha, hr⟩)
    · exact ⟨past, a, rest, he, Act.announced?_of_bridged? ha, hr⟩
    · exact ⟨past, a, rest, he, Act.announced?_of_compiled? ha, hr⟩
  · rintro ⟨past, a, rest, he, ha, hr⟩
    rcases Option.or_eq_some_iff.1 ha with ha | ⟨-, ha⟩
    · exact Or.inr ⟨past, a, rest, he, ha, hr⟩
    · exact Or.inl ⟨past, a, rest, he, ha, hr⟩

/-- The loop of a bridge is known as long as the bridge is not retired. -/
theorem Behind.parent?_iff : l.parent? b = some p ↔
    b ∈ unretired Act.bridged? acts ∧ ∃ a ∈ acts, a.bridge? = some (b, p) := by
  have hknown := hl.known fun _ ha => ha
  constructor
  · intro hp
    obtain ⟨a, ha, hab, -⟩ := hknown.bridge b p hp
    exact ⟨(hl.bridge_kept_iff hn).1 ⟨p, hp⟩, a, ha, hab⟩
  · rintro ⟨hkept, a, ha, hab⟩
    obtain ⟨q, hq⟩ := (hl.bridge_kept_iff hn).2 hkept
    obtain ⟨a', ha', hab', -⟩ := hknown.bridge b q hq
    obtain rfl := eq_of_announced? hn ha ha' (Act.announced?_of_bridge? hab)
      (Act.announced?_of_bridge? hab')
    rw [hab] at hab'
    cases hab'
    exact hq

end

/-! ## Counting -/

/-- Each accepted act keeps the balance, but for a bridge announced again. -/
theorem Takes.balanced (ht : l.Takes a l') (hl : l.Balanced)
    (hnew : ∀ b, a.bridged? = some b → l.bridges.find? b = none) : l'.Balanced := by
  have hloops := hl.loops
  have hbridges := hl.bridges
  cases ht with
  | begin e k hp => exact ⟨hloops, hbridges⟩
  | abort cause e k hp => exact ⟨hloops, hbridges⟩
  | abortBridge cause e k hp => exact ⟨hloops, hbridges⟩
  | loop e k h ops kind address length hp hn =>
      refine ⟨?_, hbridges⟩
      have hsize := FinMap.size_insert hn (e.site k)
      simp only [Tally.add, hsize]
      omega
  | bridge e parent b i ops address length hs he hp =>
      refine ⟨hloops, ?_⟩
      have hsize := FinMap.size_insert (hnew b rfl) parent
      simp only [Tally.add, hsize]
      omega
  | retireBridge hb =>
      refine ⟨hloops, ?_⟩
      have hsize := FinMap.size_erase hb
      simp only [Tally.add]
      omega
  | retireLoop hb hs hp =>
      refine ⟨?_, hbridges⟩
      have hsize := FinMap.size_erase hs
      simp only [Tally.add]
      omega
  | retireReplaced hb hs hp =>
      refine ⟨?_, hbridges⟩
      have hsize := FinMap.size_erase hs
      simp only [Tally.add]
      omega

theorem Behind.balanced (hl : Behind acts l) (hn : (acts.filterMap Act.announced?).Nodup) :
    l.Balanced := by
  induction hl with
  | nil => exact ⟨rfl, rfl⟩
  | @concat acts l l' a hl ha ih =>
      have hn' : (acts.filterMap Act.announced?).Nodup := by
        rw [List.filterMap_append] at hn
        exact hn.of_append_left
      refine ha.balanced (ih hn') fun b hb => ?_
      rw [Option.eq_none_iff_forall_ne_some]
      intro p hp
      obtain ⟨x, hx, hxb, -⟩ := (hl.known fun _ ha => ha).bridge b p hp
      exact announced_once hn (Act.announced?_of_bridged? hb) x (by simp [hx])
        (Act.announced?_of_bridge? hxb)

end Ledger

theorem nodup_unretired {f : Act → Option Handle}
    (hf : ∀ a h, f a = some h → a.announced? = some h)
    (hn : (acts.filterMap Act.announced?).Nodup) : (unretired f acts).Nodup := by
  have hsub : (acts.filterMap f).Sublist (acts.filterMap Act.announced?) := by
    clear hn
    induction acts with
    | nil => exact List.Sublist.slnil
    | cons a acts ih =>
        cases ha : f a with
        | none =>
            rw [List.filterMap_cons_none ha, List.filterMap_cons]
            cases a.announced? with
            | none => exact ih
            | some h => exact ih.cons h
        | some h =>
            rw [List.filterMap_cons_some ha, List.filterMap_cons_some (hf a h ha)]
            exact ih.cons_cons h
  exact (hn.sublist hsub).filter _

theorem size_eq_length {α : Type} {m : FinMap Handle α} {hs : List Handle} (hn : hs.Nodup)
    (hm : ∀ h, (∃ a, m.find? h = some a) ↔ h ∈ hs) : m.size = hs.length := by
  have hkeys : ∀ h, h ∈ m.keys ↔ h ∈ hs := fun h => by rw [FinMap.mem_keys_iff, hm]
  rw [FinMap.size_eq_length_keys]
  exact ((List.perm_ext_iff_of_nodup m.nodup_keys hn).2 hkeys).length_eq

namespace Ledger.Behind

variable (hl : Behind acts l) (hn : (acts.filterMap Act.announced?).Nodup)

include hl hn

theorem loopsCompiled_eq :
    l.tally.loopsCompiled = l.tally.loopsRetired + (unretired Act.compiled? acts).length := by
  have hnodup := nodup_unretired (fun _ _ => Act.announced?_of_compiled?) hn
  rw [(hl.balanced hn).loops, size_eq_length hnodup fun h => hl.loop_kept_iff hn]

theorem bridgesCompiled_eq :
    l.tally.bridgesCompiled = l.tally.bridgesRetired + (unretired Act.bridged? acts).length := by
  have hnodup := nodup_unretired (fun _ _ => Act.announced?_of_bridged?) hn
  rw [(hl.balanced hn).bridges, size_eq_length hnodup fun h => hl.bridge_kept_iff hn]

end Ledger.Behind

/-! ## Calls to a new monitor -/

section

variable {s : Shapes × Monitor}

theorem taken_sublist (acts : List Act) (s : Shapes × Monitor) : (taken acts s).Sublist acts := by
  induction acts generalizing s with
  | nil => exact List.Sublist.slnil
  | cons a acts ih =>
      rw [taken]
      split_ifs with ha
      · exact (ih _).cons_cons a
      · exact (ih _).cons a

theorem taken_split (ha : a.Taken (Act.performAll past s) = true) :
    taken (past ++ a :: rest) s =
      taken past s ++ a :: taken rest (a.perform (Act.performAll past s)) := by
  rw [taken_append, taken, if_pos ha]

theorem exists_of_mem_taken (ha : a ∈ taken acts s) :
    ∃ past rest, acts = past ++ a :: rest ∧ a.Taken (Act.performAll past s) = true := by
  induction acts generalizing s with
  | nil => cases ha
  | cons x acts ih =>
      have hrest : a ∈ taken acts (x.perform s) →
          ∃ past rest, x :: acts = past ++ a :: rest ∧ a.Taken (Act.performAll past s) = true := by
        intro h
        obtain ⟨past, rest, rfl, ht⟩ := ih h
        exact ⟨x :: past, rest, rfl, ht⟩
      rw [taken] at ha
      split_ifs at ha with hx
      · rcases List.mem_cons.1 ha with rfl | ha
        · exact ⟨[], acts, rfl, hx⟩
        · exact hrest ha
      · exact hrest ha

theorem retire_eq_true_iff {m : Monitor} :
    (m.retire h).2 = true ↔ ∃ l, m.ledger.retire? h = some l := by
  unfold Monitor.retire
  cases m.ledger.retire? h <;> simp

/-- A handle that is announced and not retired was not retired by any later call. -/
theorem outstanding_iff (shapes : Shapes) (os : List Observer)
    (hn : ((taken acts (Monitor.new shapes os)).filterMap Act.announced?).Nodup) :
    Outstanding acts (Monitor.new shapes os) h ↔
      h ∈ unretired Act.announced? (taken acts (Monitor.new shapes os)) := by
  constructor
  · rintro ⟨past, a, rest, rfl, ha, hah, hrest⟩
    have hl := Ledger.behind_new shapes os (past ++ a :: rest)
    rw [hl.mem_unretired_iff hn fun _ _ => id, taken_split ha]
    refine ⟨_, a, _, rfl, hah, ?_⟩
    rintro x hx rfl
    exact hrest ((taken_sublist _ _).mem hx)
  · intro hh
    simp only [unretired, List.mem_filter, List.mem_filterMap, decide_eq_true_eq] at hh
    obtain ⟨⟨a, ha, hah⟩, hr⟩ := hh
    obtain ⟨past, rest, rfl, ht⟩ := exists_of_mem_taken ha
    refine ⟨past, a, rest, rfl, ht, hah, fun hrest => hr ?_⟩
    -- The first retirement behind the announcement would have been accepted.
    obtain ⟨before, after, rfl⟩ := List.append_of_mem hrest
    rw [← List.cons_append, ← List.append_assoc, taken_append] at hn hr
    rw [List.filterMap_append] at hn
    have hkept : h ∈ unretired Act.announced?
        (taken (past ++ a :: before) (Monitor.new shapes os)) := by
      simp only [unretired, List.mem_filter, List.mem_filterMap, decide_eq_true_eq]
      refine ⟨⟨a, ?_, hah⟩, fun h => hr (List.mem_append_left _ h)⟩
      rw [taken_split ht]
      simp
    have hknown := ((Ledger.behind_new shapes os _).retire?_iff hn.of_append_left).2 hkept
    have htaken : (Act.retire h).Taken (Act.performAll (past ++ a :: before) _) = true :=
      retire_eq_true_iff.2 hknown
    rw [← List.cons_append, ← List.append_assoc, taken_split htaken]
    simp

end

/-- The books balance, after any calls among which no handle is announced twice. As many loops were
compiled as were retired or are still announced, and so were bridges. The loop of a bridge is known
as long as the bridge is not retired, whatever has become of the loop. Retiring a handle is of
effect just if it is outstanding: no call behind its announcement has retired it before. -/
theorem books_balance {acts : List Act} (shapes : Shapes) (os : List Observer)
    (hn : ((taken acts (Monitor.new shapes os)).filterMap Act.announced?).Nodup) :
    let told := taken acts (Monitor.new shapes os)
    let now := (Act.performAll acts (Monitor.new shapes os)).2
    now.ledger.tally.loopsCompiled =
      now.ledger.tally.loopsRetired + (unretired Act.compiled? told).length ∧
    now.ledger.tally.bridgesCompiled =
      now.ledger.tally.bridgesRetired + (unretired Act.bridged? told).length ∧
    (∀ b p, now.ledger.parent? b = some p ↔
      b ∈ unretired Act.bridged? told ∧ ∃ a ∈ told, a.bridge? = some (b, p)) ∧
    ∀ h, ((now.retire h).2 = true ↔ Outstanding acts (Monitor.new shapes os) h) ∧
      ((now.retire h).2 = false → (now.retire h).1 = now) := by
  intro told now
  have hl : Ledger.Behind told now.ledger := Ledger.behind_new shapes os acts
  refine ⟨hl.loopsCompiled_eq hn, hl.bridgesCompiled_eq hn, fun b p => hl.parent?_iff hn,
    fun h => ⟨?_, fun hr => ?_⟩⟩
  · rw [retire_eq_true_iff, hl.retire?_iff hn, outstanding_iff shapes os hn]
  · unfold Monitor.retire at hr ⊢
    cases hnone : now.ledger.retire? h with
    | none => rfl
    | some l =>
        rw [hnone] at hr
        cases hr

/-- A loop is replaced and retired before its bridges. Some calls are rejected. -/
theorem books_balance_replaced :
    let e : EntryPoint := ⟨0, "loop", ["n", "m"], ["i"]⟩
    let k : Key := ⟨[.int 1, .int 4]⟩
    let start : Act := .report (.begin e k)
    let loop : Nat → Act := fun h => .report (.loop e k ⟨h⟩ [.label, .jump] .loop 0 0)
    let bridge : Nat → Nat → Act := fun h b => .report (.bridge e ⟨h⟩ ⟨b⟩ 0 [.jump] 0 0)
    let acts := [.retire ⟨1⟩, start, loop 1, bridge 1 2, bridge 1 3, start, loop 4, bridge 1 5,
      .retire ⟨1⟩, .retire ⟨1⟩, .retire ⟨2⟩]
    let told := taken acts (Monitor.new ∅ [])
    let now := (Act.performAll acts (Monitor.new ∅ [])).2
    (told.filterMap Act.announced?).Nodup ∧ unretired Act.compiled? told = [⟨4⟩] ∧
      unretired Act.bridged? told = [⟨3⟩] ∧ now.ledger.parent? ⟨3⟩ = some ⟨1⟩ ∧
      (now.retire ⟨4⟩).2 = true ∧ (now.retire ⟨1⟩).1 = now ∧
      now.ledger.tally.loopsCompiled = now.ledger.tally.loopsRetired + 1 ∧
      now.ledger.tally.bridgesCompiled = now.ledger.tally.bridgesRetired + 1 := by
  intro e k start loop bridge acts told
  have hn : (told.filterMap Act.announced?).Nodup := by decide +kernel
  have hloops : unretired Act.compiled? told = [⟨4⟩] := by decide +kernel
  have hbridges : unretired Act.bridged? told = [⟨3⟩] := by decide +kernel
  obtain ⟨hl, hb, hparent, hretire⟩ := books_balance ∅ [] hn
  have hout : Outstanding acts (Monitor.new ∅ []) ⟨4⟩ :=
    ⟨[.retire ⟨1⟩, start, loop 1, bridge 1 2, bridge 1 3, start], loop 4,
      [bridge 1 5, .retire ⟨1⟩, .retire ⟨1⟩, .retire ⟨2⟩], rfl, by decide +kernel, rfl,
      by decide +kernel⟩
  have hagain : ((Act.performAll acts (Monitor.new ∅ [])).2.retire ⟨1⟩).2 = false := by
    decide +kernel
  have htold : bridge 1 3 ∈ told := by decide +kernel
  have hkept : (⟨3⟩ : Handle) ∈ unretired Act.bridged? told := by
    rw [hbridges]
    exact List.mem_cons_self
  rw [hloops, List.length_singleton] at hl
  rw [hbridges, List.length_singleton] at hb
  generalize (Act.performAll acts (Monitor.new ∅ [])).2 = now at hl hb hparent hretire hagain ⊢
  exact ⟨hn, hloops, hbridges, (hparent ⟨3⟩ ⟨1⟩).2 ⟨hkept, _, htold, rfl⟩,
    (hretire ⟨4⟩).1.2 hout, (hretire ⟨1⟩).2 hagain, hl, hb⟩

end

end HotLoop.Lifecycle
