import HotLoop.Proofs.Install
import HotLoop.Proofs.LedgerSteps

/-!
# What the counters count

The tally of a ledger counts every announcement and every retirement, so what is announced and not
retired is the difference. The code cache counts what it retires, and together with what is live
that is all that was ever installed.
-/

namespace HotLoop

open Trace

/-- The keys of a map are the keys of another map whose values pass a test: they are as many. -/
theorem FinMap.size_eq_countP {κ α β : Type} [DecidableEq κ] {m : FinMap κ α} {m' : FinMap κ β}
    {p : β → Bool} (h : ∀ k, (∃ a, m.find? k = some a) ↔ ∃ b, m'.find? k = some b ∧ p b = true) :
    m.size = m'.values.countP p := by
  have hn : ((m'.entries.filter fun e => p e.2).map Prod.fst).Nodup :=
    m'.nodup_keys.sublist (List.filter_sublist.map _)
  have hmem : ∀ k, k ∈ m.keys ↔ k ∈ (m'.entries.filter fun e => p e.2).map Prod.fst := by
    intro k
    rw [FinMap.mem_keys_iff, h]
    simp [FinMap.mem_entries_iff]
  have hperm := (List.perm_ext_iff_of_nodup m.nodup_keys hn).2 hmem
  rw [FinMap.size_eq_length_keys, FinMap.values, List.countP_map, List.countP_eq_length_filter,
    ← List.length_map Prod.fst]
  exact hperm.length_eq

/-! ## The ledger -/

namespace Lifecycle

namespace AbortCounts

theorem sum_insertSorted (a : Abort) (n : Nat) (l : List (Abort × Nat)) :
    ((insertSorted a n l).map Prod.snd).sum = (l.map Prod.snd).sum + n := by
  induction l with
  | nil => simp [insertSorted]
  | cons e l ih =>
      obtain ⟨b, m⟩ := e
      unfold insertSorted
      split_ifs
      · simp only [List.map_cons, List.sum_cons]
        omega
      · simp only [List.map_cons, List.sum_cons]
        omega
      · simp only [List.map_cons, List.sum_cons, ih]
        omega

theorem total_eq_sum (c : AbortCounts) : c.total = (c.entries.map Prod.snd).sum := by
  rw [total, List.sum_eq_foldl, List.foldl_map]

theorem total_add (c : AbortCounts) (a : Abort) (n : Nat) : (c.add a n).total = c.total + n := by
  rw [total_eq_sum, total_eq_sum]
  exact sum_insertSorted a n c.entries

theorem lookup_insertSorted_of_ne {a b : Abort} (hb : b ≠ a) (n : Nat) (l : List (Abort × Nat)) :
    (insertSorted a n l).lookup b = l.lookup b := by
  have hba : (b == a) = false := beq_false_of_ne hb
  induction l with
  | nil => simp [insertSorted, List.lookup_cons, hba]
  | cons e l ih =>
      obtain ⟨c, m⟩ := e
      unfold insertSorted
      split_ifs with hac hca
      · rw [List.lookup_cons, hba]
      · subst hca
        rw [List.lookup_cons, List.lookup_cons, hba]
      · rw [List.lookup_cons, List.lookup_cons, ih]

theorem lookup_insertSorted_self (a : Abort) (n : Nat) {l : List (Abort × Nat)}
    (hl : l.Pairwise fun a b => a.1 < b.1) :
    (insertSorted a n l).lookup a = some ((l.lookup a).getD 0 + n) := by
  induction l with
  | nil => simp [insertSorted]
  | cons e l ih =>
      obtain ⟨c, m⟩ := e
      obtain ⟨hc, hl⟩ := List.pairwise_cons.1 hl
      unfold insertSorted
      split_ifs with hac hca
      · have hnone : List.lookup a ((c, m) :: l) = none := by
          rw [List.lookup_eq_none_iff]
          intro e he
          have hlt : a < e.1 := by
            rcases List.mem_cons.1 he with rfl | he
            · exact hac
            · exact Nat.lt_trans hac (hc e he)
          have hne : a ≠ e.1 := fun h => Nat.lt_irrefl _ (h ▸ hlt)
          simpa using hne
        simp [hnone]
      · subst hca
        simp
      · rw [List.lookup_cons, List.lookup_cons, beq_false_of_ne hca]
        exact ih hl

theorem count_add (c : AbortCounts) (a b : Abort) (n : Nat) :
    (c.add a n).count b = c.count b + if b = a then n else 0 := by
  unfold count add
  split_ifs with hb
  · rw [hb, lookup_insertSorted_self a n c.sorted, Option.getD_some]
  · rw [lookup_insertSorted_of_ne hb, Nat.add_zero]

theorem insertSorted_insertSorted (a : Abort) (n m : Nat) (l : List (Abort × Nat)) :
    insertSorted a n (insertSorted a m l) = insertSorted a (m + n) l := by
  have hirr : ¬ a < a := Nat.lt_irrefl a.rank
  induction l with
  | nil => simp [insertSorted, hirr]
  | cons f l ih =>
      obtain ⟨c, k⟩ := f
      simp only [insertSorted]
      split_ifs with hlt heq
      · simp [insertSorted, hirr]
      · subst heq
        simp [insertSorted, hirr, Nat.add_assoc]
      · simp [insertSorted, hlt, heq, ih]

theorem insertSorted_comm_of_lt {a b : Abort} (hab : a < b) (n m : Nat) (l : List (Abort × Nat)) :
    insertSorted a n (insertSorted b m l) = insertSorted b m (insertSorted a n l) := by
  have hirr : ∀ c : Abort, ¬ c < c := fun c => Nat.lt_irrefl c.rank
  have hba : ¬ b < a := Nat.lt_asymm hab
  have hne : b ≠ a := fun h => hirr a (h ▸ hab)
  induction l with
  | nil => simp [insertSorted, hab, hba, hne]
  | cons f l ih =>
      obtain ⟨c, k⟩ := f
      by_cases hac : a < c
      · by_cases hbc : b < c
        · simp [insertSorted, hab, hac, hbc, hba, hne]
        · by_cases heq : b = c
          · subst heq
            simp [insertSorted, hirr, hab, hba, hne]
          · simp [insertSorted, hac, hbc, heq, hba, hne]
      · have hbc : ¬ b < c := fun h => hac (Nat.lt_trans hab h)
        have heq : b ≠ c := fun h => hac (h ▸ hab)
        by_cases hac' : a = c
        · subst hac'
          simp [insertSorted, hirr, hbc, heq]
        · simp [insertSorted, hac, hac', hbc, heq, ih]

/-- It does not matter which count is added first. -/
theorem insertSorted_comm (a b : Abort) (n m : Nat) (l : List (Abort × Nat)) :
    insertSorted a n (insertSorted b m l) = insertSorted b m (insertSorted a n l) := by
  rcases lt_trichotomy a.rank b.rank with hlt | heq | hgt
  · exact insertSorted_comm_of_lt hlt n m l
  · obtain rfl := Abort.rank_injective heq
    rw [insertSorted_insertSorted, insertSorted_insertSorted, Nat.add_comm]
  · exact (insertSorted_comm_of_lt hgt m n l).symm

theorem add_comm (c : AbortCounts) (a b : Abort) (n m : Nat) :
    (c.add a n).add b m = (c.add b m).add a n := by
  simp only [add, insertSorted_comm b a m n]

end AbortCounts

namespace Tally

def compiled (t : Tally) : Nat := t.loopsCompiled + t.bridgesCompiled

def ended (t : Tally) : Nat := t.compiled + t.aborts.total

theorem get_add (t : Tally) (c d : Tally.Counter) (n : Nat) :
    (t.add n c).get d = t.get d + if d = c then n else 0 := by
  cases c with
  | aborts a =>
      cases d with
      | aborts b => simp only [get, add, AbortCounts.count_add, Counter.aborts.injEq]
      | _ => rfl
  | _ => cases d <;> rfl

theorem add_comm (t : Tally) (c d : Tally.Counter) (n m : Nat) :
    (t.add n c).add m d = (t.add m d).add n c := by
  cases c with
  | aborts a =>
      cases d with
      | aborts b => simp only [add, AbortCounts.add_comm]
      | _ => rfl
  | loopsCompiled =>
      cases d with
      | loopsCompiled => simp only [add, Nat.add_right_comm]
      | _ => rfl
  | bridgesCompiled =>
      cases d with
      | bridgesCompiled => simp only [add, Nat.add_right_comm]
      | _ => rfl
  | loopsRetired =>
      cases d with
      | loopsRetired => simp only [add, Nat.add_right_comm]
      | _ => rfl
  | bridgesRetired =>
      cases d with
      | bridgesRetired => simp only [add, Nat.add_right_comm]
      | _ => rfl

end Tally

namespace Ledger

structure Balanced (l : Ledger) : Prop where
  loops : l.tally.loopsCompiled = l.tally.loopsRetired + l.loops.size
  bridges : l.tally.bridgesCompiled = l.tally.bridgesRetired + l.bridges.size

structure Counts (l l' : Ledger) (announced ended : Nat) : Prop where
  balanced : l.Balanced → l'.Balanced
  compiled : l'.tally.compiled = l.tally.compiled + announced
  ended : l'.tally.ended = l.tally.ended + ended

variable {l l' : Ledger} {e : EntryPoint} {k : Key} {h : Handle}

theorem Counts.refl (l : Ledger) : l.Counts l 0 0 := ⟨id, rfl, rfl⟩

theorem get_forget {c : Tally.Counter} (hloops : c ≠ .loopsRetired) (hbridges : c ≠ .bridgesRetired)
    (l : Ledger) (h : Handle) : (l.forget h).tally.get c = l.tally.get c := by
  unfold forget retire?
  split_ifs
  · exact (l.tally.get_add _ c 1).trans (by rw [if_neg hbridges, Nat.add_zero])
  · cases l.loops.find? h with
    | none => rfl
    | some s => exact (l.tally.get_add _ c 1).trans (by rw [if_neg hloops, Nat.add_zero])

theorem counts_forget (hl : l.Sound) (h : Handle) : l.Counts (l.forget h) 0 0 := by
  cases hp : l.bridges.find? h with
  | some p =>
      have hsize := FinMap.size_erase hp
      rw [forget_of_bridge hp]
      refine ⟨fun hb => ⟨hb.loops, ?_⟩, rfl, rfl⟩
      have hbridges := hb.bridges
      change l.tally.bridgesCompiled = l.tally.bridgesRetired + 1 + (l.bridges.erase h).size
      omega
  | none =>
      cases hs : l.loops.find? h with
      | none =>
          rw [forget_of_none hp hs]
          exact Counts.refl l
      | some s =>
          have hsize := FinMap.size_erase hs
          rw [forget_of_loop hp hs ((hl.live_iff s h).2 hs)]
          refine ⟨fun hb => ⟨?_, hb.bridges⟩, rfl, rfl⟩
          have hloops := hb.loops
          change l.tally.loopsCompiled = l.tally.loopsRetired + 1 + (l.loops.erase h).size
          omega

/-- Retirements are no announcements, and end no trace. -/
theorem counts_foldl_forget (hs : List Handle) (hl : l.Sound) :
    l.Counts (hs.foldl forget l) 0 0 := by
  induction hs generalizing l with
  | nil => exact Counts.refl l
  | cons h hs ih =>
      have hfirst := counts_forget hl h
      have hrest := ih (hl.forget h)
      exact ⟨fun hb => hrest.balanced (hfirst.balanced hb), hrest.compiled.trans hfirst.compiled,
        hrest.ended.trans hfirst.ended⟩

theorem counts_begin (h : l.begin e k = .ok l') :
    l'.bridges = l.bridges ∧ l.Counts l' 0 0 := by
  obtain ⟨-, rfl⟩ := begin_eq_ok_iff.1 h
  exact ⟨rfl, fun hb => ⟨hb.loops, hb.bridges⟩, rfl, rfl⟩

theorem counts_abort {cause : Abort} (h : l.abort cause e k = .ok l') :
    l'.bridges = l.bridges ∧ l.Counts l' 0 1 := by
  have htally : (l.tally.add 1 (.aborts cause)).ended = l.tally.ended + 1 := by
    change l.tally.compiled + (l.tally.aborts.add cause 1).total = _
    rw [AbortCounts.total_add, Tally.ended]
    omega
  have hcounts : ∀ phases, l.Counts
      { l with phases := phases, tally := l.tally.add 1 (.aborts cause) } 0 1 := fun _ =>
    ⟨fun hb => ⟨hb.loops, hb.bridges⟩, rfl, htally⟩
  rcases abort_eq_ok_iff.1 h with ⟨-, rfl⟩ | ⟨-, rfl⟩
  · exact ⟨rfl, hcounts _⟩
  · exact ⟨rfl, hcounts _⟩

theorem counts_announceLoop (hl : l.announceLoop e k h = .ok l') :
    l'.bridges = l.bridges ∧ l.Counts l' 1 1 := by
  obtain ⟨-, hnew, rfl⟩ := announceLoop_eq_ok_iff.1 hl
  have hcompiled : (l.tally.add 1 .loopsCompiled).compiled = l.tally.compiled + 1 := by
    change l.tally.loopsCompiled + 1 + l.tally.bridgesCompiled = _
    rw [Tally.compiled]
    omega
  refine ⟨rfl, fun hb => ⟨?_, hb.bridges⟩, hcompiled, ?_⟩
  · have hloops := hb.loops
    change l.tally.loopsCompiled + 1 = l.tally.loopsRetired + (l.loops.insert h _).size
    rw [FinMap.size_insert hnew]
    omega
  · change (l.tally.add 1 .loopsCompiled).compiled + l.tally.aborts.total = _
    rw [hcompiled, Tally.ended]
    omega

theorem counts_announceBridge {p : Handle} (hnew : l.bridges.find? h = none)
    (hl : l.announceBridge e p h = .ok l') :
    l'.bridges = l.bridges.insert h p ∧ l.Counts l' 1 1 := by
  obtain ⟨s, phase, -, -, -, rfl⟩ := announceBridge_eq_ok_iff.1 hl
  have hcompiled : (l.tally.add 1 .bridgesCompiled).compiled = l.tally.compiled + 1 := rfl
  refine ⟨rfl, fun hb => ⟨hb.loops, ?_⟩, hcompiled, ?_⟩
  · have hbridges := hb.bridges
    change l.tally.bridgesCompiled + 1 = l.tally.bridgesRetired + (l.bridges.insert h p).size
    rw [FinMap.size_insert hnew]
    omega
  · change (l.tally.add 1 .bridgesCompiled).compiled + l.tally.aborts.total = _
    rw [hcompiled, Tally.ended]
    omega

end Ledger

end Lifecycle

/-! ## The code cache -/

namespace Code.Cache

def liveLoops (c : Cache) : Nat := c.artifacts.values.countP fun a => decide a.IsLoop

def liveBridges (c : Cache) : Nat := c.artifacts.values.countP fun a => decide (¬ a.IsLoop)

theorem liveLoops_add_liveBridges (c : Cache) : c.liveLoops + c.liveBridges = c.liveCount := by
  have hl := List.length_eq_countP_add_countP (fun a => decide a.IsLoop) (l := c.artifacts.values)
  have hb : c.liveBridges = c.artifacts.values.countP fun a => ¬ decide a.IsLoop = true :=
    List.countP_congr fun a _ => by simp
  rw [hb, liveLoops, ← hl]
  exact List.length_map _

def installed (c : Cache) : Nat := c.retiredCount + c.liveCount

def handles (c : Cache) : List Handle := c.artifacts.keys

/-- The cache `c'` is `c` with the artifacts `new` and without `gone`, which are listed once each and
are counted as retired. -/
structure Exchanges (c c' : Cache) (new gone : List Handle) : Prop where
  handles : (c.handles ++ new).Perm (c'.handles ++ gone)
  retiredCount : c'.retiredCount = c.retiredCount + gone.length
  next : c'.next = c.next

variable {c c' c'' : Cache} {h : Handle}

theorem length_handles (c : Cache) : c.handles.length = c.liveCount :=
  (FinMap.size_eq_length_keys c.artifacts).symm

theorem mem_handles_iff : h ∈ c.handles ↔ ∃ a, c.get? h = some a :=
  FinMap.mem_keys_iff c.artifacts h

theorem handles_remove {a : Artifact} (ha : c.get? h = some a) :
    c.handles.Perm ((c.remove h a).handles ++ [h]) := by
  have hr : (c.remove h a).handles = c.handles.erase h := FinMap.keys_erase c.artifacts h
  rw [hr]
  exact (List.perm_cons_erase (mem_handles_iff.2 ⟨a, ha⟩)).trans (List.perm_append_singleton h _).symm

namespace Exchanges

variable {new new' gone gone' : List Handle}

theorem refl (c : Cache) : c.Exchanges c [] [] := ⟨List.Perm.refl _, rfl, rfl⟩

theorem trans (h : c.Exchanges c' new gone) (h' : c'.Exchanges c'' new' gone') :
    c.Exchanges c'' (new ++ new') (gone ++ gone') where
  handles := by
    have hnew := h.handles.append_right new'
    have hgone := h'.handles.append_right gone
    have hgn : (gone ++ new').Perm (new' ++ gone) := List.perm_append_comm
    have hgg : (gone' ++ gone).Perm (gone ++ gone') := List.perm_append_comm
    have hswap := hgn.append_left c'.handles
    have hback := hgg.append_left c''.handles
    simp only [List.append_assoc] at hnew hgone hswap hback ⊢
    exact hnew.trans (hswap.trans (hgone.trans hback))
  retiredCount := by
    have hfirst := h.retiredCount
    have hrest := h'.retiredCount
    rw [List.length_append]
    omega
  next := h'.next.trans h.next

theorem dead {j : Handle} (h : c.Exchanges c' [] gone) (hd : c.get? j = none) :
    c'.get? j = none := by
  have hj : j ∉ c.handles := by
    rw [mem_handles_iff, hd]
    simp
  by_contra hlive
  have hj' : j ∈ c'.handles := mem_handles_iff.2 (Option.ne_none_iff_exists'.1 hlive)
  have hmem := h.handles.mem_iff.2 (List.mem_append_left gone hj')
  rw [List.append_nil] at hmem
  exact hj hmem

theorem nodup (h : c.Exchanges c' new gone) (hn : (c.handles ++ new).Nodup) : gone.Nodup :=
  (List.nodup_append.1 (h.handles.nodup_iff.1 hn)).2.1

theorem installed (h : c.Exchanges c' new gone) : c'.installed = c.installed + new.length := by
  have hlength := h.handles.length_eq
  have hretired := h.retiredCount
  rw [List.length_append, List.length_append, length_handles, length_handles] at hlength
  unfold Cache.installed
  omega

end Exchanges

/-! ### Retiring -/

theorem handles_removeAll (hs : List Handle) (c : Cache) :
    c.handles.Perm ((c.removeAll hs).1.handles ++ (c.removeAll hs).2) ∧
      (c.removeAll hs).1.retiredCount = c.retiredCount ∧ (c.removeAll hs).1.next = c.next := by
  induction hs generalizing c with
  | nil => exact ⟨by simp [removeAll], rfl, rfl⟩
  | cons h hs ih =>
      cases ha : c.get? h with
      | none =>
          simp only [removeAll, ha]
          exact ih c
      | some a =>
          obtain ⟨hp, hrest⟩ := ih (c.remove h a)
          simp only [removeAll, ha]
          refine ⟨(handles_remove ha).trans ((hp.append_right [h]).trans ?_), hrest⟩
          rw [List.append_assoc]
          exact (List.perm_append_singleton h _).append_left _

theorem exchanges_retire (c : Cache) (h : Handle) :
    c.Exchanges (c.retire h).1 [] (c.retire h).2 := by
  cases ha : c.get? h with
  | none =>
      rw [retire_of_dead ha]
      exact Exchanges.refl c
  | some a =>
      have hfirst := handles_remove ha
      cases hk : a.kind with
      | loop =>
          have hdrop : (c.dropLoop h a).handles = (c.remove h a).handles ∧
              (c.dropLoop h a).retiredCount = c.retiredCount := by
            unfold dropLoop
            split_ifs <;> exact ⟨rfl, rfl⟩
          obtain ⟨hp, hr, hx⟩ := handles_removeAll a.bridges.values (c.dropLoop h a)
          rw [hdrop.1] at hp
          rw [hdrop.2] at hr
          rw [next_dropLoop] at hx
          rw [retire_of_loop ha hk]
          refine ⟨?_, congrArg (· + _) hr, hx⟩
          rw [List.append_nil]
          refine hfirst.trans ((hp.append_right [h]).trans ?_)
          rw [List.append_assoc]
          exact (List.perm_append_singleton h _).append_left _
      | bridge p i =>
          have hkeys := FinMap.keys_modify (c.remove h a).artifacts p fun b => b.detach i h
          have hp : c.handles.Perm
              (((c.remove h a).artifacts.modify p fun b => b.detach i h).keys ++ [h]) :=
            hkeys.symm ▸ hfirst
          rw [retire_of_bridge ha hk]
          refine ⟨?_, rfl, rfl⟩
          rw [List.append_nil]
          exact hp

theorem exchanges_retireAll (hs : List Handle) (c : Cache) :
    c.Exchanges (c.retireAll hs).1 [] (c.retireAll hs).2 := by
  induction hs generalizing c with
  | nil => exact Exchanges.refl c
  | cons h hs ih => exact (exchanges_retire c h).trans (ih (c.retire h).1)

theorem exchanges_vacate (c : Cache) (s : Site) :
    c.Exchanges (c.vacate s).1 [] (c.vacate s).2 := by
  cases hl : c.loop? s with
  | none =>
      rw [vacate_of_none hl]
      exact Exchanges.refl c
  | some old =>
      rw [vacate_of_some hl]
      exact exchanges_retire c old

/-! ### Entering and installing -/

theorem exchanges_entered (c : Cache) (h : Handle) :
    c.Exchanges { c with artifacts := c.artifacts.modify h Artifact.entered } [] [] := by
  refine ⟨?_, rfl, rfl⟩
  have hkeys := FinMap.keys_modify c.artifacts h Artifact.entered
  rw [handles, handles, hkeys]

theorem exchanges_putLoop (hd : c.get? h = none) (s : Site) (g : Guards) (ops : List Op) :
    c.Exchanges (c.putLoop h s g ops) [h] [] := by
  refine ⟨?_, rfl, rfl⟩
  have hkeys := FinMap.keys_insert hd (newLoop h s g ops)
  rw [List.append_nil]
  exact List.Perm.of_eq hkeys.symm

theorem exchanges_putBridge (hd : c.get? h = none) (p : Handle) (s : Site) (i : Nat) (g : Guards)
    (ops : List Op) : c.Exchanges (c.putBridge h p s i g ops) [h] [] := by
  have hm : (c.artifacts.modify p fun a => a.attach i h).find? h = none := by
    have hd : c.artifacts.find? h = none := hd
    rw [FinMap.find?_modify, hd]
    simp
  refine ⟨?_, rfl, rfl⟩
  have hkeys := FinMap.keys_insert hm (newBridge h p s i g ops)
  rw [FinMap.keys_modify] at hkeys
  rw [List.append_nil]
  exact List.Perm.of_eq hkeys.symm

end Code.Cache

end HotLoop
