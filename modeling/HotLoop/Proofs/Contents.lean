import HotLoop.Proofs.Memory

/-!
# What the heap holds

An allocation and a write change the memory in place, one effect after another: a write revokes the
version before it stores the value. The first thing that is wrong with a call is found before its
first effect, so a call that fails has none. What a field holds can therefore be read off the calls
that succeeded: it is the last value stored there, else the last one given at the allocation, or
else 0.
-/

namespace HotLoop

namespace Object

variable {o o' : Object}

def given (field : String) (e : String × Int) : Option Int :=
  if e.1 = field then some e.2 else none

theorem findD_set {field : String} {value : Int} (h : o.set field value = .ok o') (f : String) :
    o'.values.findD f 0 = (given f (field, value)).getD (o.values.findD f 0) := by
  obtain ⟨-, rfl⟩ := set_eq_ok h
  rw [FinMap.findD_insert, given]
  by_cases hf : f = field
  · rw [if_pos hf, if_pos hf.symm, Option.getD_some]
  · rw [if_neg hf, if_neg (Ne.symm hf), Option.getD_none]

theorem setAll_spec {values : List (String × Int)} (h : o.setAll values = .ok o') :
    o'.cls = o.cls ∧ (∀ e ∈ values, e.1 ∈ o.cls.fields) ∧ ∀ f, o'.values.findD f 0 =
      (values.filterMap (given f)).getLast?.getD (o.values.findD f 0) := by
  induction values generalizing o with
  | nil =>
      obtain rfl := Except.ok.inj h
      exact ⟨rfl, by simp, fun f => rfl⟩
  | cons e values ih =>
      rw [setAll] at h
      cases hs : o.set e.1 e.2 with
      | error x =>
          rw [hs] at h
          cases h
      | ok o₁ =>
          rw [hs] at h
          have hcls := cls_set hs
          obtain ⟨hc, hfields, hvalues⟩ := ih h
          refine ⟨hc.trans hcls, List.forall_mem_cons.2 ⟨(set_eq_ok hs).1, ?_⟩, fun f => ?_⟩
          · rwa [← hcls]
          · rw [hvalues, findD_set hs, getLast?_filterMap_cons]

/-- The values are stored in turn, and the first one for a field that the class lacks is named. -/
theorem setAll_eq_error_iff {values : List (String × Int)} {e : Error} :
    o.setAll values = .error e ↔
      ∃ f, (values.map Prod.fst).find? (fun f => decide (f ∉ o.cls.fields)) = some f ∧
        e = .unknownField o.cls.name f := by
  induction values generalizing o with
  | nil => simp [setAll]
  | cons p values ih =>
      by_cases hf : p.1 ∈ o.cls.fields
      · rw [setAll, set, if_pos hf, List.map_cons, List.find?_cons_of_neg (by simpa using hf)]
        exact ih
      · rw [setAll, set, if_neg hf, List.map_cons, List.find?_cons_of_pos (by simpa using hf)]
        simp [eq_comm]

theorem get_eq_error_iff {field : String} {e : Error} :
    o.get field = .error e ↔ field ∉ o.cls.fields ∧ e = .unknownField o.cls.name field := by
  unfold get
  split_ifs with hf <;> simp [hf, eq_comm]

end Object

namespace Heap

variable {h h' : Heap} {t t' : Versions} {l : Location} {value : Int} {i : Option Invalidation}

theorem isSome_set_iff (hs : h.set t l value = .ok (h', t', i)) :
    i.isSome ↔ h.isQuasi l = .ok true ∧ (t.current? l).isSome := by
  rcases revoke_set hs with ⟨inv, rfl, hq, hi⟩ | ⟨rfl, -, hn⟩
  · refine iff_of_true rfl ⟨hq, Option.isSome_iff_ne_none.2 fun hc => ?_⟩
    rw [(Versions.invalidate?_eq_none_iff t l).2 hc] at hi
    cases hi
  · refine iff_of_false (by simp) ?_
    rintro ⟨hq, hc⟩
    rw [hn hq] at hc
    cases hc

theorem alloc_eq_error_iff {c : ObjectClass} {values : List (String × Int)} {e : Error} :
    h.alloc c values = .error e ↔
      ∃ f, (values.map Prod.fst).find? (fun f => decide (f ∉ c.fields)) = some f ∧
        e = .unknownField c.name f := by
  rw [← Object.setAll_eq_error_iff (o := ⟨c, ∅⟩), alloc]
  cases Object.setAll ⟨c, ∅⟩ values <;> simp [Except.map]

theorem eq_of_object_error {id : ObjectId} {e : Error} (ho : h.object id = .error e) :
    e = .unknownObject id := by
  unfold object at ho
  split at ho <;> cases ho
  rfl

end Heap

namespace Memory

/-! ## Operations in place -/

/-- An operation that changes the memory as it goes. What it has changed when it fails stays so. -/
abbrev InPlace (α : Type) := EStateM Error Memory α

def findObject (id : ObjectId) : InPlace Object := fun m =>
  match m.heap.object id with
  | .ok o => .ok o m
  | .error e => .error e m

def checkField (c : ObjectClass) (field : String) : InPlace Unit :=
  if field ∈ c.fields then return () else throw (.unknownField c.name field)

def revokeVersion (l : Location) : InPlace (Option Invalidation) := fun m =>
  match m.versions.invalidate? l with
  | some (t, i) => .ok (some i) { m with versions := t }
  | none => .ok none m

def revokeIfQuasi (o : Object) (l : Location) : InPlace (Option Invalidation) :=
  if o.cls.declared.IsQuasi l.field then revokeVersion l else pure none

def putObject (id : ObjectId) (o : Object) : InPlace Unit :=
  modify fun m => { m with heap := ⟨m.heap.objects.set id.number o⟩ }

def addObject (o : Object) : InPlace ObjectId := fun m =>
  .ok ⟨m.heap.objects.length⟩ { m with heap := ⟨m.heap.objects ++ [o]⟩ }

/-- Writes a field. The version goes first, so no one finds it current with the new value there. -/
def setInPlace (l : Location) (value : Int) : InPlace (Option Invalidation) := do
  let o ← findObject l.object
  checkField o.cls l.field
  let i ← revokeIfQuasi o l
  putObject l.object { o with values := o.values.insert l.field value }
  return i

def initialise (o : Object) : List (String × Int) → InPlace Object
  | [] => return o
  | (field, value) :: rest => do
    checkField o.cls field
    initialise { o with values := o.values.insert field value } rest

def allocInPlace (c : ObjectClass) (values : List (String × Int)) : InPlace ObjectId := do
  let o ← initialise ⟨c, ∅⟩ values
  addObject o

variable {m m' : Memory} {l : Location}

theorem checkField_of_mem {c : ObjectClass} {field : String} (h : field ∈ c.fields) (m : Memory) :
    checkField c field m = .ok () m := by
  rw [checkField, if_pos h]
  rfl

theorem checkField_of_not_mem {c : ObjectClass} {field : String} (h : field ∉ c.fields)
    (m : Memory) : checkField c field m = .error (.unknownField c.name field) m := by
  rw [checkField, if_neg h]
  rfl

theorem revokeIfQuasi_eq (o : Object) (l : Location) (m : Memory) :
    revokeIfQuasi o l m =
      .ok (Heap.revoke o m.versions l).2 { m with versions := (Heap.revoke o m.versions l).1 } := by
  unfold revokeIfQuasi Heap.revoke
  split_ifs
  · unfold revokeVersion
    cases m.versions.invalidate? l <;> rfl
  · rfl

/-- Done in place, a write has the effects of a write as a whole. -/
theorem setInPlace_eq (l : Location) (value : Int) (m : Memory) :
    setInPlace l value m = match m.heap.set m.versions l value with
      | .ok (h, t, i) => .ok i ⟨h, t⟩
      | .error e => .error e m := by
  unfold setInPlace Heap.set
  cases ho : m.heap.object l.object with
  | error e => simp only [bind, EStateM.bind, Except.bind, findObject, ho]
  | ok o =>
      by_cases hf : l.field ∈ o.cls.fields
      · have hset : o.set l.field value =
            .ok { o with values := o.values.insert l.field value } := if_pos hf
        simp only [bind, EStateM.bind, Except.bind, findObject, ho, hset, checkField_of_mem hf,
          revokeIfQuasi_eq]
        rfl
      · have hset : o.set l.field value = .error (.unknownField o.cls.name l.field) := if_neg hf
        simp only [bind, EStateM.bind, Except.bind, findObject, ho, hset, checkField_of_not_mem hf]

theorem initialise_eq (o : Object) (values : List (String × Int)) (m : Memory) :
    initialise o values m = match o.setAll values with
      | .ok o' => .ok o' m
      | .error e => .error e m := by
  induction values generalizing o with
  | nil => rfl
  | cons e values ih =>
      obtain ⟨field, value⟩ := e
      by_cases hf : field ∈ o.cls.fields
      · have hset : o.set field value = .ok { o with values := o.values.insert field value } :=
          if_pos hf
        simp only [initialise, Object.setAll, hset, bind, EStateM.bind, checkField_of_mem hf]
        exact ih _
      · have hset : o.set field value = .error (.unknownField o.cls.name field) := if_neg hf
        simp only [initialise, Object.setAll, hset, bind, EStateM.bind, checkField_of_not_mem hf]

theorem allocInPlace_eq (c : ObjectClass) (values : List (String × Int)) (m : Memory) :
    allocInPlace c values m = match m.heap.alloc c values with
      | .ok (h, id) => .ok id { m with heap := h }
      | .error e => .error e m := by
  simp only [allocInPlace, bind, EStateM.bind, initialise_eq, Heap.alloc]
  cases Object.setAll ⟨c, ∅⟩ values <;> rfl

/-! ## Calls and their log -/

inductive Call where
  | alloc (c : ObjectClass) (values : List (String × Int))
  | set (l : Location) (value : Int)
  /-- Others share the table of versions, and may do anything to it between two calls. -/
  | elsewhere (f : Versions → Versions)

inductive Answer where
  | object (id : ObjectId)
  | stored (revoked : Option Invalidation)
  | done

def Call.perform : Call → InPlace Answer
  | .alloc c values => return .object (← allocInPlace c values)
  | .set l value => return .stored (← setInPlace l value)
  | .elsewhere f => do
    modify fun m => { m with versions := f m.versions }
    return .done

abbrev Log := List (Call × Except Error Answer)

def record (x : Memory × Log) (c : Call) : Memory × Log :=
  match c.perform x.1 with
  | .ok a m => (m, x.2 ++ [(c, .ok a)])
  | .error e m => (m, x.2 ++ [(c, .error e)])

/-- The memory after these calls, and their log. At first there are no objects, and any versions. -/
def recordAll (t : Versions) (calls : List Call) : Memory × Log :=
  calls.foldl record ({ versions := t }, [])

theorem perform_alloc (c : ObjectClass) (values : List (String × Int)) (m : Memory) :
    (Call.alloc c values).perform m = match m.heap.alloc c values with
      | .ok (h, id) => .ok (.object id) { m with heap := h }
      | .error e => .error e m := by
  simp only [Call.perform, bind, EStateM.bind, allocInPlace_eq]
  cases m.heap.alloc c values <;> rfl

theorem perform_set (l : Location) (value : Int) (m : Memory) :
    (Call.set l value).perform m = match m.heap.set m.versions l value with
      | .ok (h, t, i) => .ok (.stored i) ⟨h, t⟩
      | .error e => .error e m := by
  simp only [Call.perform, bind, EStateM.bind, setInPlace_eq]
  cases m.heap.set m.versions l value <;> rfl

theorem perform_alloc_eq_error_iff {c : ObjectClass} {values : List (String × Int)} {e : Error} :
    (Call.alloc c values).perform m = .error e m' ↔ m' = m ∧ m.heap.alloc c values = .error e := by
  rw [perform_alloc]
  cases m.heap.alloc c values <;> simp [and_comm, eq_comm]

theorem perform_set_eq_error_iff {value : Int} {e : Error} :
    (Call.set l value).perform m = .error e m' ↔
      m' = m ∧ m.heap.set m.versions l value = .error e := by
  rw [perform_set]
  cases m.heap.set m.versions l value <;> simp [and_comm, eq_comm]

namespace Log

/-- The object was allocated, with these values for a start. -/
def Allocated (log : Log) (id : ObjectId) (c : ObjectClass) (values : List (String × Int)) : Prop :=
  (Call.alloc c values, .ok (.object id)) ∈ log

def created : Call × Except Error Answer → Option ObjectId
  | (_, .ok (.object id)) => some id
  | _ => none

def objects (log : Log) : List ObjectId :=
  log.filterMap created

def stored (l : Location) : Call × Except Error Answer → Option Int
  | (.set m value, .ok _) => if m = l then some value else none
  | _ => none

/-- The last value that was stored at the location, else the last one that it was given when its
object was allocated, else 0. -/
def latest (log : Log) (values : List (String × Int)) (l : Location) : Int :=
  (log.filterMap (stored l)).getLast?.getD
    ((values.filterMap (Object.given l.field)).getLast?.getD 0)

variable {log : Log} {id : ObjectId} {c : ObjectClass} {values : List (String × Int)}

theorem allocated_concat {x : Call × Except Error Answer} :
    Allocated (log ++ [x]) id c values ↔
      log.Allocated id c values ∨ x = (.alloc c values, .ok (.object id)) := by
  rw [Allocated, List.mem_append, List.mem_singleton, eq_comm (a := x)]
  exact Iff.rfl

theorem objects_concat (log : Log) (x : Call × Except Error Answer) :
    objects (log ++ [x]) = log.objects ++ (created x).toList := by
  rw [objects, List.filterMap_append]
  cases h : created x <;> simp [objects, h]

theorem latest_concat (log : Log) (x : Call × Except Error Answer) (values : List (String × Int))
    (l : Location) : latest (log ++ [x]) values l = (stored l x).getD (log.latest values l) :=
  getLast?_filterMap_concat _ _ _ _

theorem stored_set (l : Location) (value : Int) (a : Answer) (f : String) :
    stored ⟨l.object, f⟩ (.set l value, .ok a) = Object.given f (l.field, value) := by
  cases l
  simp [stored, Object.given]

theorem stored_set_of_ne {j l : Location} (hj : j.object ≠ l.object) (value : Int) (a : Answer) :
    stored j (.set l value, .ok a) = none :=
  if_neg fun h => hj (congrArg Location.object h.symm)

end Log

/-! ## What the log says of the heap -/

structure Matches (m : Memory) (log : Log) : Prop where
  kept : ∀ id c values, log.Allocated id c values → ∃ o, m.heap.object id = .ok o ∧ o.cls = c ∧
    ∀ f, o.values.findD f 0 = log.latest values ⟨id, f⟩
  made : ∀ id o, m.heap.object id = .ok o → ∃ values, log.Allocated id o.cls values
  numbered : log.objects = (List.range m.heap.objects.length).map ObjectId.mk
  /-- Nothing was stored in what is not an object yet. -/
  unwritten : ∀ l e, m.heap.object l.object = .error e → log.filterMap (Log.stored l) = []

variable {log : Log}

theorem Matches.idle (hm : m.Matches log) (t : Versions) {x : Call × Except Error Answer}
    (hc : Log.created x = none) (hs : ∀ l, Log.stored l x = none) :
    Matches { m with versions := t } (log ++ [x]) where
  kept := by
    intro id c values ha
    rcases Log.allocated_concat.1 ha with ha | rfl
    · obtain ⟨o, ho, hcls, hvalues⟩ := hm.kept id c values ha
      refine ⟨o, ho, hcls, fun f => ?_⟩
      rw [hvalues, Log.latest_concat, hs, Option.getD_none]
    · cases hc
  made := by
    intro id o ho
    obtain ⟨values, ha⟩ := hm.made id o ho
    exact ⟨values, Log.allocated_concat.2 (Or.inl ha)⟩
  numbered := by
    rw [Log.objects_concat, hc, Option.toList_none, List.append_nil, hm.numbered]
  unwritten := by
    intro l e he
    rw [List.filterMap_append, hm.unwritten l e he]
    simp [hs]

theorem Matches.alloc {c : ObjectClass} {values : List (String × Int)} {h : Heap} {id : ObjectId}
    (hm : m.Matches log) (ha : m.heap.alloc c values = .ok (h, id)) :
    Matches { m with heap := h } (log ++ [(.alloc c values, .ok (.object id))]) := by
  obtain ⟨o, ho, rfl, rfl⟩ := Heap.alloc_eq_ok ha
  obtain ⟨hcls, -, hvalues⟩ := Object.setAll_spec ho
  have hstored : ∀ l, Log.stored l
      (.alloc c values, .ok (.object ⟨m.heap.objects.length⟩)) = none := fun _ => rfl
  constructor
  case kept =>
    intro id c' values' hall
    rcases Log.allocated_concat.1 hall with hall | hnew
    · obtain ⟨o', ho', hcls', hvalues'⟩ := hm.kept id c' values' hall
      refine ⟨o', Heap.object_alloc ha ho', hcls', fun f => ?_⟩
      rw [hvalues', Log.latest_concat, hstored, Option.getD_none]
    · cases hnew
      refine ⟨o, by rw [Heap.object_append, if_pos rfl], hcls, fun f => ?_⟩
      -- no write went there before it was an object, so the values of the allocation count
      have hnone := hm.unwritten ⟨⟨m.heap.objects.length⟩, f⟩ _ (Heap.object_length m.heap)
      rw [hvalues, Log.latest_concat, hstored, Option.getD_none, Log.latest, hnone]
      rfl
  case made =>
    intro id o' ho'
    rw [Heap.object_append] at ho'
    split_ifs at ho' with hid
    · cases ho'
      exact ⟨values, Log.allocated_concat.2 (Or.inr (by rw [hid, hcls]))⟩
    · obtain ⟨values', hall⟩ := hm.made id o' ho'
      exact ⟨values', Log.allocated_concat.2 (Or.inl hall)⟩
  case numbered =>
    rw [Log.objects_concat, hm.numbered, List.length_append, List.length_singleton,
      List.range_succ, List.map_append]
    rfl
  case unwritten =>
    intro l e he
    rw [Heap.object_append] at he
    split_ifs at he
    rw [List.filterMap_append, hm.unwritten l e he]
    simp [hstored]

theorem Matches.set {l : Location} {value : Int} {h : Heap} {t : Versions}
    {i : Option Invalidation} (hm : m.Matches log)
    (hs : m.heap.set m.versions l value = .ok (h, t, i)) :
    Matches ⟨h, t⟩ (log ++ [(.set l value, .ok (.stored i))]) := by
  obtain ⟨o, written, ho, hw, -, rfl⟩ := Heap.set_eq_ok hs
  have hobject : ∀ j, Heap.object ⟨m.heap.objects.set l.object.number written⟩ j =
      if j = l.object then .ok written else m.heap.object j := Heap.object_set ho
  constructor
  case kept =>
    intro id c values hall
    rcases Log.allocated_concat.1 hall with hall | hnew
    · obtain ⟨o', ho', hcls, hvalues⟩ := hm.kept id c values hall
      by_cases hid : id = l.object
      · subst hid
        obtain rfl : o = o' := Except.ok.inj (ho.symm.trans ho')
        refine ⟨written, by rw [hobject, if_pos rfl], (Object.cls_set hw).trans hcls, fun f => ?_⟩
        rw [Object.findD_set hw, Log.latest_concat, hvalues, Log.stored_set]
      · refine ⟨o', by rw [hobject, if_neg hid, ho'], hcls, fun f => ?_⟩
        rw [hvalues, Log.latest_concat, Log.stored_set_of_ne hid, Option.getD_none]
    · cases hnew
  case made =>
    intro id o' ho'
    rw [hobject] at ho'
    split_ifs at ho' with hid
    · cases ho'
      obtain ⟨values, hall⟩ := hm.made _ o ho
      refine ⟨values, Log.allocated_concat.2 (Or.inl ?_)⟩
      rwa [hid, Object.cls_set hw]
    · obtain ⟨values, hall⟩ := hm.made id o' ho'
      exact ⟨values, Log.allocated_concat.2 (Or.inl hall)⟩
  case numbered =>
    rw [Log.objects_concat, hm.numbered]
    simp [Log.created]
  case unwritten =>
    intro j e he
    rw [hobject] at he
    split_ifs at he with hj
    rw [List.filterMap_append, hm.unwritten j e he]
    simp [Log.stored_set_of_ne hj]

theorem Matches.record {x : Memory × Log} (hx : x.1.Matches x.2) (c : Call) :
    (record x c).1.Matches (record x c).2 := by
  unfold Memory.record
  cases c with
  | alloc c values =>
      rw [perform_alloc]
      cases ha : x.1.heap.alloc c values with
      | error e => exact hx.idle x.1.versions rfl fun _ => rfl
      | ok p => exact hx.alloc ha
  | set l value =>
      rw [perform_set]
      cases hs : x.1.heap.set x.1.versions l value with
      | error e => exact hx.idle x.1.versions rfl fun _ => rfl
      | ok p => exact hx.set hs
  | elsewhere f => exact hx.idle (f x.1.versions) rfl fun _ => rfl

theorem Matches.foldl {x : Memory × Log} (hx : x.1.Matches x.2) (calls : List Call) :
    (calls.foldl Memory.record x).1.Matches (calls.foldl Memory.record x).2 := by
  induction calls generalizing x with
  | nil => exact hx
  | cons c calls ih => exact ih (hx.record c)

theorem matches_empty (t : Versions) : Matches { versions := t } [] where
  kept := by
    intro id c values ha
    cases ha
  made := by
    intro id o ho
    cases ho
  numbered := rfl
  unwritten := fun _ _ _ => rfl

theorem matches_recordAll (t : Versions) (calls : List Call) :
    (recordAll t calls).1.Matches (recordAll t calls).2 :=
  (matches_empty t).foldl calls

/-- A field can be read just if its object was allocated, and is of a class that has it. -/
theorem Matches.get_iff (hm : m.Matches log) (l : Location) (v : Int) :
    m.heap.get l = .ok v ↔ ∃ c values, log.Allocated l.object c values ∧ l.field ∈ c.fields ∧
      v = log.latest values l := by
  constructor
  · intro hv
    obtain ⟨o, ho, hget⟩ := Heap.exists_object_of_get hv
    obtain ⟨values, ha⟩ := hm.made _ o ho
    obtain ⟨o', ho', -, hvalues⟩ := hm.kept _ _ values ha
    obtain rfl : o = o' := Except.ok.inj (ho.symm.trans ho')
    unfold Object.get at hget
    split_ifs at hget with hf
    exact ⟨o.cls, values, ha, hf, (Except.ok.inj hget).symm.trans (hvalues l.field)⟩
  · rintro ⟨c, values, ha, hf, rfl⟩
    obtain ⟨o, ho, rfl, hvalues⟩ := hm.kept _ _ values ha
    rw [Heap.get_of_object ho, Object.get, if_pos hf]
    exact congrArg Except.ok (hvalues l.field)

theorem Matches.isQuasi_iff (hm : m.Matches log) (l : Location) :
    m.heap.isQuasi l = .ok true ↔
      ∃ c values, log.Allocated l.object c values ∧ c.declared.IsQuasi l.field := by
  constructor
  · intro hq
    cases ho : m.heap.object l.object with
    | error e =>
        rw [Heap.isQuasi_of_object_error ho] at hq
        cases hq
    | ok o =>
        obtain ⟨values, ha⟩ := hm.made _ o ho
        rw [Heap.isQuasi_of_object ho, Except.ok.injEq, decide_eq_true_iff] at hq
        exact ⟨o.cls, values, ha, hq⟩
  · rintro ⟨c, values, ha, hq⟩
    obtain ⟨o, ho, rfl, -⟩ := hm.kept _ _ values ha
    rw [Heap.isQuasi_of_object ho, decide_eq_true hq]

theorem Matches.get_error_iff (hm : m.Matches log) (l : Location) (e : Error) :
    m.heap.get l = .error e ↔
      (∀ c values, ¬ log.Allocated l.object c values) ∧ e = .unknownObject l.object ∨
      ∃ c values, log.Allocated l.object c values ∧ l.field ∉ c.fields ∧
        e = .unknownField c.name l.field := by
  cases ho : m.heap.object l.object with
  | error e' =>
      have hnone : ∀ c values, ¬ log.Allocated l.object c values := by
        intro c values ha
        obtain ⟨o, ho', -⟩ := hm.kept _ _ _ ha
        rw [ho] at ho'
        cases ho'
      obtain rfl := Heap.eq_of_object_error ho
      rw [Heap.get_of_object_error ho, Except.error.injEq, eq_comm]
      constructor
      · exact fun he => Or.inl ⟨hnone, he⟩
      · rintro (⟨-, he⟩ | ⟨c, values, ha, -⟩)
        · exact he
        · exact absurd ha (hnone c values)
  | ok o =>
      obtain ⟨values, ha⟩ := hm.made _ o ho
      rw [Heap.get_of_object ho, Object.get_eq_error_iff]
      constructor
      · exact fun he => Or.inr ⟨o.cls, values, ha, he⟩
      · rintro (⟨hnone, -⟩ | ⟨c, values', ha', he⟩)
        · exact absurd ha (hnone _ _)
        · obtain ⟨o', ho', rfl, -⟩ := hm.kept _ _ _ ha'
          obtain rfl : o = o' := Except.ok.inj (ho.symm.trans ho')
          exact he

theorem Matches.length_objects (hm : m.Matches log) :
    log.objects.length = m.heap.objects.length := by
  rw [hm.numbered, List.length_map, List.length_range]

/-- The memory is a store with the objects of the log, and a call that fails does nothing to it. -/
structure Faithful (m : Memory) (log : Log) : Prop where
  get_iff : ∀ l v, m.heap.get l = .ok v ↔ ∃ c values, log.Allocated l.object c values ∧
    l.field ∈ c.fields ∧ v = log.latest values l
  get_error_iff : ∀ l e, m.heap.get l = .error e ↔
    (∀ c values, ¬ log.Allocated l.object c values) ∧ e = .unknownObject l.object ∨
    ∃ c values, log.Allocated l.object c values ∧ l.field ∉ c.fields ∧
      e = .unknownField c.name l.field
  objects : log.objects = (List.range m.heap.objects.length).map ObjectId.mk
  /-- Effect by effect, an allocation is the one of the heap. -/
  alloc : ∀ c values, (Call.alloc c values).perform m = match m.heap.alloc c values with
    | .ok (h, id) => .ok (.object id) { m with heap := h }
    | .error e => .error e m
  alloc_ok : ∀ c values a m', (Call.alloc c values).perform m = .ok a m' →
    (∀ e ∈ values, e.1 ∈ c.fields) ∧ a = .object ⟨log.objects.length⟩ ∧ m'.versions = m.versions
  /-- An allocation goes wrong at the first value for a field that the class lacks. -/
  alloc_error_iff : ∀ c values e m', (Call.alloc c values).perform m = .error e m' ↔ m' = m ∧
    ∃ f, (values.map Prod.fst).find? (fun f => decide (f ∉ c.fields)) = some f ∧
      e = .unknownField c.name f
  /-- Effect by effect, a write is the one of the heap. -/
  set : ∀ l value, (Call.set l value).perform m = match m.heap.set m.versions l value with
    | .ok (h, t, i) => .ok (.stored i) ⟨h, t⟩
    | .error e => .error e m
  /-- A write revokes the version of a tracked location that is quasi-immutable. -/
  set_ok : ∀ l value a m', (Call.set l value).perform m = .ok a m' → ∃ i, a = .stored i ∧
    (i.isSome ↔ (∃ c values, log.Allocated l.object c values ∧ c.declared.IsQuasi l.field) ∧
      (m.versions.current? l).isSome)
  /-- A write goes wrong just where a read does. -/
  set_error_iff : ∀ l value e m', (Call.set l value).perform m = .error e m' ↔
    m' = m ∧ m.heap.get l = .error e

/-- Whatever is allocated and written, and whatever goes wrong with it, the heap holds what was
stored by the calls that succeeded. -/
theorem recordAll_faithful (t : Versions) (calls : List Call) :
    Faithful (recordAll t calls).1 (recordAll t calls).2 := by
  have hm := matches_recordAll t calls
  generalize recordAll t calls = x at hm
  obtain ⟨m, log⟩ := x
  refine
    { get_iff := hm.get_iff
      get_error_iff := hm.get_error_iff
      objects := hm.numbered
      alloc := fun c values => perform_alloc c values m
      alloc_ok := ?alloc_ok
      alloc_error_iff := ?alloc_error_iff
      set := fun l value => perform_set l value m
      set_ok := ?set_ok
      set_error_iff := ?set_error_iff }
  case alloc_ok =>
    intro c values a m' h
    rw [perform_alloc] at h
    cases ha : m.heap.alloc c values with
    | error e =>
        rw [ha] at h
        cases h
    | ok p =>
        rw [ha] at h
        cases h
        obtain ⟨o, ho, -, hid⟩ := Heap.alloc_eq_ok ha
        exact ⟨(Object.setAll_spec ho).2.1, by rw [hid, hm.length_objects], rfl⟩
  case alloc_error_iff =>
    intro c values e m'
    rw [perform_alloc_eq_error_iff, Heap.alloc_eq_error_iff]
  case set_ok =>
    intro l value a m' h
    rw [perform_set] at h
    cases hs : m.heap.set m.versions l value with
    | error e =>
        rw [hs] at h
        cases h
    | ok p =>
        rw [hs] at h
        cases h
        refine ⟨p.2.2, rfl, ?_⟩
        rw [← hm.isQuasi_iff, Heap.isSome_set_iff hs]
  case set_error_iff =>
    intro l value e m'
    rw [perform_set_eq_error_iff, Heap.set_eq_error_iff]

/-- An allocation that goes wrong takes no number, and of two values the later counts. -/
example : (recordAll {} [.alloc counter [("step", 7), ("size", 1)],
    .alloc counter [("step", 7), ("step", 8)]]).1.heap.get step0 = .ok 8 := by rfl

end Memory

end HotLoop
