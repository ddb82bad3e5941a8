import Mathlib.Tactic
import HotLoop.Heap.Basic
import HotLoop.Proofs.Versions

/-!
# What a write does to the heap

A write changes the value of one location, and it revokes a version just if the location is
quasi-immutable and tracked. It fails where a read fails, and with the same error. No operation
takes an object away or changes its class.
-/

namespace HotLoop

namespace Object

theorem set_eq_ok {o o' : Object} {field : String} {value : Int}
    (h : o.set field value = .ok o') :
    field ∈ o.cls.fields ∧ o' = { o with values := o.values.insert field value } := by
  unfold set at h
  split_ifs at h with hf
  exact ⟨hf, (Except.ok.inj h).symm⟩

theorem set_eq_error_iff {o : Object} {field : String} {value : Int} {e : Error} :
    o.set field value = .error e ↔ o.get field = .error e := by
  unfold set get
  split_ifs <;> simp

theorem get_set {o o' : Object} {field : String} {value : Int}
    (h : o.set field value = .ok o') (f : String) :
    o'.get f = if f = field then .ok value else o.get f := by
  obtain ⟨hf, rfl⟩ := set_eq_ok h
  unfold get
  by_cases hff : f = field
  · subst hff
    simp [hf, FinMap.findD]
  · simp [hff, FinMap.findD]

theorem cls_set {o o' : Object} {field : String} {value : Int}
    (h : o.set field value = .ok o') : o'.cls = o.cls := by
  obtain ⟨-, rfl⟩ := set_eq_ok h
  rfl

end Object

namespace Heap

variable {h h' : Heap} {l m : Location}

theorem object_eq_ok_iff {id : ObjectId} {o : Object} :
    h.object id = .ok o ↔ h.objects[id.number]? = some o := by
  unfold object
  cases h.objects[id.number]? <;> simp

theorem object_set {id : ObjectId} {o o' : Object} (ho : h.object id = .ok o) (j : ObjectId) :
    object ⟨h.objects.set id.number o'⟩ j = if j = id then .ok o' else h.object j := by
  have hlt := (List.getElem?_eq_some_iff.1 (object_eq_ok_iff.1 ho)).1
  unfold object
  by_cases hj : j = id
  · subst hj
    simp [hlt]
  · have hne : id.number ≠ j.number := by
      intro he
      apply hj
      cases j
      cases id
      simp_all
    simp [hj, List.getElem?_set_ne hne]

theorem get_of_object {o : Object} (ho : h.object l.object = .ok o) : h.get l = o.get l.field := by
  unfold get
  rw [ho]
  rfl

theorem get_of_object_error {e : Error} (ho : h.object l.object = .error e) :
    h.get l = .error e := by
  unfold get
  rw [ho]
  rfl

theorem isQuasi_of_object {o : Object} (ho : h.object l.object = .ok o) :
    h.isQuasi l = .ok (decide (o.cls.declared.IsQuasi l.field)) := by
  unfold isQuasi
  rw [ho]
  rfl

theorem isQuasi_of_object_error {e : Error} (ho : h.object l.object = .error e) :
    h.isQuasi l = .error e := by
  unfold isQuasi
  rw [ho]
  rfl

/-- A location with a value has an object of a class with that field. -/
theorem exists_object_of_get {x : Int} (hx : h.get l = .ok x) :
    ∃ o, h.object l.object = .ok o ∧ o.get l.field = .ok x := by
  cases ho : h.object l.object with
  | error e =>
      rw [get_of_object_error ho] at hx
      cases hx
  | ok o =>
      rw [get_of_object ho] at hx
      exact ⟨o, rfl, hx⟩

theorem mem_names_of_isQuasi {ds : Field.Declarations} {name : String} (hq : ds.IsQuasi name) :
    name ∈ ds.names := by
  cases hf : ds.fields.find? name with
  | none =>
      unfold Field.Declarations.IsQuasi Field.Declarations.flags FinMap.findD at hq
      rw [hf] at hq
      exact absurd hq (by decide)
  | some f => exact (FinMap.mem_keys_iff ds.fields name).2 ⟨f, hf⟩

/-- A class declares only fields that it has, so what is quasi-immutable has a value. -/
theorem exists_get_of_isQuasi (hq : h.isQuasi l = .ok true) : ∃ x, h.get l = .ok x := by
  cases ho : h.object l.object with
  | error e =>
      rw [isQuasi_of_object_error ho] at hq
      cases hq
  | ok o =>
      rw [isQuasi_of_object ho, Except.ok.injEq, decide_eq_true_iff] at hq
      have hf := o.cls.declared_fields _ (mem_names_of_isQuasi hq)
      exact ⟨_, by rw [get_of_object ho, Object.get, if_pos hf]⟩

/-! ## Writing -/

variable {t t' : Versions} {value : Int} {i : Option Invalidation}

theorem set_eq_ok (hs : h.set t l value = .ok (h', t', i)) :
    ∃ o written, h.object l.object = .ok o ∧ o.set l.field value = .ok written ∧
      revoke o t l = (t', i) ∧ h' = ⟨h.objects.set l.object.number written⟩ := by
  unfold set at hs
  cases ho : h.object l.object with
  | error e =>
      rw [ho] at hs
      cases hs
  | ok o =>
      cases hw : o.set l.field value with
      | error e =>
          rw [ho] at hs
          simp [bind, Except.bind, hw] at hs
      | ok written =>
          rw [ho] at hs
          simp only [bind, Except.bind, hw, pure, Except.pure, Except.ok.injEq,
            Prod.mk.injEq] at hs
          obtain ⟨rfl, rfl, rfl⟩ := hs
          exact ⟨o, written, rfl, hw, rfl, rfl⟩

theorem set_eq_error_iff {e : Error} : h.set t l value = .error e ↔ h.get l = .error e := by
  unfold set
  cases ho : h.object l.object with
  | error e' =>
      rw [get_of_object_error ho]
      simp [bind, Except.bind]
  | ok o =>
      have he : o.set l.field value = .error e ↔ o.get l.field = .error e :=
        Object.set_eq_error_iff
      rw [get_of_object ho, ← he]
      cases hw : o.set l.field value <;> simp [bind, Except.bind, hw, pure, Except.pure]

theorem get_set (hs : h.set t l value = .ok (h', t', i)) (m : Location) :
    h'.get m = if m = l then .ok value else h.get m := by
  obtain ⟨o, written, ho, hw, -, rfl⟩ := set_eq_ok hs
  by_cases hm : m.object = l.object
  · have ho' : h.object m.object = .ok o := hm ▸ ho
    have hw' : object ⟨h.objects.set l.object.number written⟩ m.object = .ok written := by
      rw [object_set ho, if_pos hm]
    rw [get_of_object hw', Object.get_set hw, get_of_object ho']
    by_cases hf : m.field = l.field
    · have he : m = l := by
        cases m
        cases l
        simp_all
      rw [if_pos hf, if_pos he]
    · have he : m ≠ l := fun he => hf (he ▸ rfl)
      rw [if_neg hf, if_neg he]
  · have he : m ≠ l := fun he => hm (he ▸ rfl)
    rw [if_neg he]
    unfold get
    rw [object_set ho, if_neg hm]

theorem isQuasi_set (hs : h.set t l value = .ok (h', t', i)) (m : Location) :
    h'.isQuasi m = h.isQuasi m := by
  obtain ⟨o, written, ho, hw, -, rfl⟩ := set_eq_ok hs
  unfold isQuasi
  rw [object_set ho]
  split_ifs with hm
  · rw [hm, ho]
    simp [Except.map, Object.cls_set hw]
  · rfl

theorem revoke_set (hs : h.set t l value = .ok (h', t', i)) :
    (∃ inv, i = some inv ∧ h.isQuasi l = .ok true ∧ t.invalidate? l = some (t', inv)) ∨
      i = none ∧ t' = t ∧ (h.isQuasi l = .ok true → t.current? l = none) := by
  obtain ⟨o, written, ho, -, hr, -⟩ := set_eq_ok hs
  rw [isQuasi_of_object ho]
  unfold revoke at hr
  split_ifs at hr with hq
  · cases hi : t.invalidate? l with
    | some p =>
        obtain ⟨t₁, inv⟩ := p
        simp only [hi, Prod.mk.injEq] at hr
        obtain ⟨rfl, rfl⟩ := hr
        exact Or.inl ⟨inv, rfl, by simp [hq], rfl⟩
    | none =>
        simp only [hi, Prod.mk.injEq] at hr
        obtain ⟨rfl, rfl⟩ := hr
        exact Or.inr ⟨rfl, rfl, fun _ => (Versions.invalidate?_eq_none_iff t l).1 hi⟩
  · obtain ⟨rfl, rfl⟩ := Prod.mk.inj hr
    exact Or.inr ⟨rfl, rfl, by simp [hq]⟩

theorem sound_set (ht : t.Sound) (hs : h.set t l value = .ok (h', t', i)) : t'.Sound := by
  rcases revoke_set hs with ⟨inv, -, -, hi⟩ | ⟨-, rfl, -⟩
  · exact ht.invalidate hi
  · exact ht

theorem issued_set (ht : t.Sound) (hs : h.set t l value = .ok (h', t', i)) {v : Version}
    (hv : t.Issued v) : t'.Issued v := by
  rcases revoke_set hs with ⟨inv, -, -, hi⟩ | ⟨-, rfl, -⟩
  · exact hv.invalidate ht hi
  · exact hv

/-- A write makes the version of its own location stale, if that is quasi-immutable, and no other. -/
theorem isCurrent_set_iff (ht : t.Sound) (hs : h.set t l value = .ok (h', t', i)) {v : Version}
    (hv : t.Issued v) (hq : h.isQuasi v.location = .ok true) :
    t'.IsCurrent v ↔ t.IsCurrent v ∧ v.location ≠ l := by
  rcases revoke_set hs with ⟨inv, -, -, hi⟩ | ⟨-, rfl, hn⟩
  · exact hv.isCurrent_invalidate_iff ht hi
  · refine (and_iff_left ?_).symm
    -- nothing was revoked, but an issued version has its location tracked
    rintro rfl
    obtain ⟨-, u, hu, -⟩ := hv
    rw [hn hq] at hu
    cases hu

/-! ## Allocating -/

variable {c : ObjectClass} {values : List (String × Int)} {id : ObjectId}

theorem alloc_eq_ok (ha : h.alloc c values = .ok (h', id)) :
    ∃ o, Object.setAll ⟨c, ∅⟩ values = .ok o ∧ h' = ⟨h.objects ++ [o]⟩ ∧
      id = ⟨h.objects.length⟩ := by
  unfold alloc at ha
  cases ho : Object.setAll ⟨c, ∅⟩ values with
  | error e =>
      rw [ho] at ha
      cases ha
  | ok o =>
      rw [ho] at ha
      cases ha
      exact ⟨o, rfl, rfl, rfl⟩

theorem object_length (h : Heap) :
    h.object ⟨h.objects.length⟩ = .error (.unknownObject ⟨h.objects.length⟩) := by
  unfold object
  rw [List.getElem?_eq_none le_rfl]

theorem object_append (h : Heap) (o : Object) (j : ObjectId) :
    object ⟨h.objects ++ [o]⟩ j = if j = ⟨h.objects.length⟩ then .ok o else h.object j := by
  unfold object
  by_cases hj : j = ⟨h.objects.length⟩
  · subst hj
    simp
  · have hne : j.number ≠ h.objects.length := fun hn => hj (congrArg ObjectId.mk hn)
    rw [if_neg hj, List.getElem?_append]
    split_ifs with hlt
    · rfl
    · have hout : h.objects.length ≤ j.number := le_of_not_gt hlt
      have hone : 1 ≤ j.number - h.objects.length := by omega
      rw [List.getElem?_eq_none hout, List.getElem?_eq_none (by simpa using hone)]

theorem object_alloc (ha : h.alloc c values = .ok (h', id)) {j : ObjectId} {o : Object}
    (ho : h.object j = .ok o) : h'.object j = .ok o := by
  obtain ⟨new, -, rfl, -⟩ := alloc_eq_ok ha
  rw [object_append]
  split_ifs with hj
  · subst hj
    rw [object_length] at ho
    cases ho
  · exact ho

theorem get_alloc (ha : h.alloc c values = .ok (h', id)) {x : Int} (hx : h.get m = .ok x) :
    h'.get m = .ok x := by
  obtain ⟨o, ho, hox⟩ := exists_object_of_get hx
  rw [get_of_object (object_alloc ha ho), hox]

theorem isQuasi_alloc (ha : h.alloc c values = .ok (h', id)) {b : Bool} (hb : h.isQuasi m = .ok b) :
    h'.isQuasi m = .ok b := by
  cases ho : h.object m.object with
  | error e =>
      rw [isQuasi_of_object_error ho] at hb
      cases hb
  | ok o =>
      rw [isQuasi_of_object ho] at hb
      rw [isQuasi_of_object (object_alloc ha ho), hb]

end Heap

end HotLoop
