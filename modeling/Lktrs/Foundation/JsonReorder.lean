import Lktrs.Foundation.JsonDecode

/-!
# Objects decoded into structs

`DecodedAsStruct ty j fields members` says that decoding `j` into a variable of
type `ty` decodes the object with these members into a struct with these
fields. A document has a single reading when no such object assigns one field
twice (`SingleAssignment`): then its members may be written in any order
(`decodeValue_reordered`). For a document that decodes, that condition is
distinctness of the keys under case folding (`singleAssignment_iff`).
-/

set_option autoImplicit false

namespace Lktrs.Foundation

/-- The objects a document's decoding meets with a struct as their target. -/
inductive DecodedAsStruct :
    GoType → Json → List (String × GoType) → List (String × Json) → Prop where
  | here {fields : List (String × GoType)} {members : List (String × Json)} :
      DecodedAsStruct (.struct fields) (.object members) fields members
  | field {fields fields' : List (String × GoType)} {members members' : List (String × Json)}
      {key name : String} {v : Json} {i : ℕ} {ty : GoType} :
      (key, v) ∈ members → fieldFor fields key = some i → fields[i]? = some (name, ty) →
      DecodedAsStruct ty v fields' members' →
      DecodedAsStruct (.struct fields) (.object members) fields' members'
  | elem {fields' : List (String × GoType)} {members' : List (String × Json)} {elems : List Json}
      {v : Json} {ty : GoType} :
      v ∈ elems → DecodedAsStruct ty v fields' members' →
      DecodedAsStruct (.slice ty) (.array elems) fields' members'
  | entry {fields' : List (String × GoType)} {members members' : List (String × Json)}
      {key : String} {v : Json} {ty : GoType} :
      (key, v) ∈ members → DecodedAsStruct ty v fields' members' →
      DecodedAsStruct (.map ty) (.object members) fields' members'

/-- No object decoded into a struct has two keys assigned to the same field. -/
def SingleAssignment (ty : GoType) (j : Json) : Prop :=
  ∀ fields members, DecodedAsStruct ty j fields members →
    (members.map Prod.fst).Pairwise fun a b => fieldFor fields a ≠ fieldFor fields b

/-- No object decoded into a struct has two keys that are equal under case folding. -/
def FoldDistinctKeys (ty : GoType) (j : Json) : Prop :=
  ∀ fields members, DecodedAsStruct ty j fields members →
    (members.map Prod.fst).Pairwise fun a b => foldName a ≠ foldName b

/-- The same document with the members of objects decoded into structs in another order. -/
inductive Reordered : GoType → Json → Json → Prop where
  | refl {ty : GoType} {j : Json} : Reordered ty j j
  | members {fields : List (String × GoType)} {ms ms' : List (String × Json)} :
      ms.Perm ms' → Reordered (.struct fields) (.object ms) (.object ms')
  | field {fields : List (String × GoType)} {l r : List (String × Json)} {key name : String}
      {v v' : Json} {i : ℕ} {ty : GoType} :
      fieldFor fields key = some i → fields[i]? = some (name, ty) → Reordered ty v v' →
      Reordered (.struct fields) (.object (l ++ (key, v) :: r)) (.object (l ++ (key, v') :: r))
  | elem {l r : List Json} {v v' : Json} {ty : GoType} :
      Reordered ty v v' → Reordered (.slice ty) (.array (l ++ v :: r)) (.array (l ++ v' :: r))
  | entry {l r : List (String × Json)} {key : String} {v v' : Json} {ty : GoType} :
      Reordered ty v v' →
      Reordered (.map ty) (.object (l ++ (key, v) :: r)) (.object (l ++ (key, v') :: r))
  | trans {ty : GoType} {a b c : Json} : Reordered ty a b → Reordered ty b c → Reordered ty a c

/-! ## Assigning one member -/

/-- Replace the value at a position by what a partial function makes of it. -/
def updateAt {α : Type} (i : ℕ) (g : α → Option α) (values : List α) : Option (List α) :=
  (values[i]?).bind fun current => (g current).map (values.set i)

/-- Updates at different positions commute. -/
theorem updateAt_comm {α : Type} {i j : ℕ} (hij : i ≠ j) (g h : α → Option α) (values : List α) :
    (updateAt i g values).bind (updateAt j h) = (updateAt j h values).bind (updateAt i g) := by
  -- neither update changes what the other one reads
  have hread (v : α) : (values.set i v)[j]? = values[j]? := List.getElem?_set_ne hij
  have hread' (v : α) : (values.set j v)[i]? = values[i]? := List.getElem?_set_ne hij.symm
  cases hi : values[i]? with
  | none =>
      cases hj : values[j]? with
      | none => simp [updateAt, hi, hj]
      | some b => cases hb : h b <;> simp [updateAt, hi, hj, hb, hread']
  | some a =>
      cases hj : values[j]? with
      | none => cases ha : g a <;> simp [updateAt, hi, hj, ha, hread]
      | some b =>
          cases ha : g a <;> cases hb : h b <;>
            simp [updateAt, hi, hj, ha, hb, hread, hread', List.set_comm _ _ hij]

/-- What one member of an object does to the values of a struct. -/
def assignMember (fields : List (String × GoType)) (m : String × Json) (values : List GoValue) :
    Option (List GoValue) :=
  (fieldFor fields m.1).bind fun i =>
    (fields[i]?).bind fun field => updateAt i (fun current => decodeValue field.2 current m.2) values

theorem decodeMembers_cons (fields : List (String × GoType)) (values : List GoValue)
    (m : String × Json) (ms : List (String × Json)) :
    decodeMembers fields values (m :: ms) =
      (assignMember fields m values).bind fun values' => decodeMembers fields values' ms := by
  obtain ⟨key, v⟩ := m
  rw [decodeMembers, assignMember]
  cases fieldFor fields key with
  | none => rfl
  | some i =>
      cases hf : fields[i]? with
      | none => simp [hf]
      | some field =>
          cases hc : values[i]? with
          | none => simp [hf, hc, updateAt]
          | some current => cases hv : decodeValue field.2 current v <;> simp [hf, hc, hv, updateAt]

/-- Members of different fields may be assigned in either order. -/
theorem assignMember_comm {fields : List (String × GoType)} {m m' : String × Json}
    (hne : fieldFor fields m.1 ≠ fieldFor fields m'.1) (values : List GoValue) :
    (assignMember fields m values).bind (assignMember fields m') =
      (assignMember fields m' values).bind (assignMember fields m) := by
  -- a member without a field fails in both orders, so only the case of two fields is left
  have hnone (m : String × Json) (x : Option (List GoValue)) (h : fieldFor fields m.1 = none) :
      x.bind (assignMember fields m) = none := by
    cases x <;> simp [assignMember, h]
  have hmissing (m : String × Json) (i : ℕ) (x : Option (List GoValue))
      (h : fieldFor fields m.1 = some i) (hf : fields[i]? = none) :
      x.bind (assignMember fields m) = none := by
    cases x <;> simp [assignMember, h, hf]
  cases hi : fieldFor fields m.1 with
  | none => rw [hnone m _ hi]; simp [assignMember, hi]
  | some i =>
      cases hj : fieldFor fields m'.1 with
      | none => rw [hnone m' _ hj]; simp [assignMember, hj]
      | some j =>
          have hij : i ≠ j := by
            intro h
            exact hne (by rw [hi, hj, h])
          cases hfi : fields[i]? with
          | none => rw [hmissing m i _ hi hfi]; simp [assignMember, hi, hfi]
          | some f =>
              cases hfj : fields[j]? with
              | none => rw [hmissing m' j _ hj hfj]; simp [assignMember, hj, hfj]
              | some f' =>
                  have hm : assignMember fields m =
                      updateAt i (fun current => decodeValue f.2 current m.2) := by
                    funext values; simp [assignMember, hi, hfi]
                  have hm' : assignMember fields m' =
                      updateAt j (fun current => decodeValue f'.2 current m'.2) := by
                    funext values; simp [assignMember, hj, hfj]
                  rw [hm, hm']
                  exact updateAt_comm hij _ _ values

/-! ## Reordering -/

/-- Two keys go to different fields. -/
abbrev OtherField (fields : List (String × GoType)) (a b : String) : Prop :=
  fieldFor fields a ≠ fieldFor fields b

theorem decodeMembers_perm {fields : List (String × GoType)} {ms ms' : List (String × Json)}
    (hperm : ms.Perm ms') (hpair : (ms.map Prod.fst).Pairwise (OtherField fields))
    (values : List GoValue) :
    decodeMembers fields values ms = decodeMembers fields values ms' := by
  induction hperm generalizing values with
  | nil => rfl
  | cons m _ ih =>
      rw [decodeMembers_cons, decodeMembers_cons]
      exact congrArg _ (funext fun values' => ih (List.pairwise_cons.1 hpair).2 values')
  | swap m m' ms =>
      have hne : fieldFor fields m'.1 ≠ fieldFor fields m.1 :=
        (List.pairwise_cons.1 hpair).1 m.1 List.mem_cons_self
      simp only [decodeMembers_cons, ← Option.bind_assoc]
      exact congrArg (Option.bind · fun values' => decodeMembers fields values' ms)
        (assignMember_comm hne values)
  | trans h₁ _ ih₁ ih₂ =>
      have hmid := (h₁.map Prod.fst).pairwise hpair fun h => h.symm
      exact (ih₁ hpair values).trans (ih₂ hmid values)

theorem decodeMembers_replace {fields : List (String × GoType)} {l r : List (String × Json)}
    {key : String} {v v' : Json} (values : List GoValue)
    (h : ∀ values, assignMember fields (key, v) values = assignMember fields (key, v') values) :
    decodeMembers fields values (l ++ (key, v) :: r) =
      decodeMembers fields values (l ++ (key, v') :: r) := by
  induction l generalizing values with
  | nil => rw [List.nil_append, List.nil_append, decodeMembers_cons, decodeMembers_cons, h]
  | cons m l ih =>
      rw [List.cons_append, List.cons_append, decodeMembers_cons, decodeMembers_cons]
      exact congrArg _ (funext ih)

theorem decodeElems_replace {elem : GoType} {l r : List Json} {v v' : Json}
    (h : decodeValue elem elem.zero v = decodeValue elem elem.zero v') :
    decodeElems elem (l ++ v :: r) = decodeElems elem (l ++ v' :: r) := by
  induction l with
  | nil => simp only [List.nil_append, decodeElems, h]
  | cons w l ih => simp only [List.cons_append, decodeElems, ih]

theorem decodeEntries_replace {value : GoType} {l r : List (String × Json)} {key : String}
    {v v' : Json} (h : decodeValue value value.zero v = decodeValue value value.zero v')
    (entries : List (String × GoValue)) :
    decodeEntries value entries (l ++ (key, v) :: r) =
      decodeEntries value entries (l ++ (key, v') :: r) := by
  induction l generalizing entries with
  | nil => simp only [List.nil_append, decodeEntries, h]
  | cons m l ih => simp only [List.cons_append, decodeEntries, ih]

/-! ## Parts of a document -/

theorem SingleAssignment.field {fields : List (String × GoType)} {members : List (String × Json)}
    {key name : String} {v : Json} {i : ℕ} {ty : GoType}
    (h : SingleAssignment (.struct fields) (.object members)) (hmem : (key, v) ∈ members)
    (hfor : fieldFor fields key = some i) (hget : fields[i]? = some (name, ty)) :
    SingleAssignment ty v :=
  fun fields' members' hin => h fields' members' (.field hmem hfor hget hin)

theorem SingleAssignment.elem {elems : List Json} {v : Json} {ty : GoType}
    (h : SingleAssignment (.slice ty) (.array elems)) (hmem : v ∈ elems) : SingleAssignment ty v :=
  fun fields' members' hin => h fields' members' (.elem hmem hin)

theorem SingleAssignment.entry {members : List (String × Json)} {key : String} {v : Json}
    {ty : GoType} (h : SingleAssignment (.map ty) (.object members)) (hmem : (key, v) ∈ members) :
    SingleAssignment ty v :=
  fun fields' members' hin => h fields' members' (.entry hmem hin)

/-- After one element of a list is replaced, every other one was there before. -/
theorem mem_replaced {α : Type} {l r : List α} {x a b : α} (h : x ∈ l ++ b :: r) :
    x = b ∨ x ∈ l ++ a :: r := by
  rcases List.mem_append.1 h with h | h
  · exact .inr (List.mem_append_left _ h)
  · rcases List.mem_cons.1 h with h | h
    · exact .inl h
    · exact .inr (List.mem_append_right _ (List.mem_cons_of_mem _ h))

/-- Reordering keeps every field assigned once. -/
theorem SingleAssignment.reordered {ty : GoType} {j j' : Json} (hre : Reordered ty j j')
    (h : SingleAssignment ty j) : SingleAssignment ty j' := by
  induction hre with
  | refl => exact h
  | members hperm =>
      intro fields members hin
      cases hin with
      | here => exact (hperm.map Prod.fst).pairwise (h _ _ .here) fun h => h.symm
      | field hmem hfor hget hin => exact h _ _ (.field (hperm.symm.subset hmem) hfor hget hin)
  | @field fields l r key name v v' i ty hfor hget _ ih =>
      have hv : SingleAssignment ty v := h.field (by simp) hfor hget
      intro fields' members' hin
      cases hin with
      | here => simpa using h _ _ .here
      | @field _ _ _ _ key₁ name₁ v₁ i₁ ty₁ hmem hfor₁ hget₁ hin =>
          rcases mem_replaced (a := (key, v)) hmem with heq | hmem
          · -- the replaced member: its field and so its type are the same
            obtain ⟨rfl, rfl⟩ := Prod.mk.inj heq
            obtain rfl : i₁ = i := Option.some.inj (hfor₁.symm.trans hfor)
            obtain ⟨-, rfl⟩ := Prod.mk.inj (Option.some.inj (hget₁.symm.trans hget))
            exact ih hv _ _ hin
          · exact h _ _ (.field hmem hfor₁ hget₁ hin)
  | @elem l r v v' ty _ ih =>
      have hv : SingleAssignment ty v := h.elem (by simp)
      intro fields' members' hin
      cases hin with
      | elem hmem hin =>
          rcases mem_replaced (a := v) hmem with heq | hmem
          · exact ih hv _ _ (heq ▸ hin)
          · exact h _ _ (.elem hmem hin)
  | @entry l r key v v' ty _ ih =>
      have hv : SingleAssignment ty v := SingleAssignment.entry h (by simp : (key, v) ∈ _)
      intro fields' members' hin
      cases hin with
      | entry hmem hin =>
          rcases mem_replaced (a := (key, v)) hmem with heq | hmem
          · obtain ⟨rfl, rfl⟩ := Prod.mk.inj heq
            exact ih hv _ _ hin
          · exact h _ _ (.entry hmem hin)
  | trans _ _ ih₁ ih₂ => exact ih₂ (ih₁ h)

/-- A document that assigns every field once decodes alike in every order of its members. -/
theorem decodeValue_reordered {ty : GoType} {j j' : Json} (hre : Reordered ty j j')
    (h : SingleAssignment ty j) (current : GoValue) :
    decodeValue ty current j = decodeValue ty current j' := by
  induction hre generalizing current with
  | refl => rfl
  | members hperm => simp only [decodeValue, decodeMembers_perm hperm (h _ _ .here)]
  | @field fields l r key name v v' i ty hfor hget _ ih =>
      have hv : SingleAssignment ty v := h.field (by simp) hfor hget
      have hassign (values : List GoValue) :
          assignMember fields (key, v) values = assignMember fields (key, v') values := by
        simp only [assignMember, hfor, hget, Option.bind_some, ih hv]
      simp only [decodeValue, decodeMembers_replace _ hassign]
  | @elem l r v v' ty _ ih =>
      have hv : SingleAssignment ty v := h.elem (by simp)
      simp only [decodeValue, decodeElems_replace (ih hv _)]
  | @entry l r key v v' ty _ ih =>
      have hv : SingleAssignment ty v := SingleAssignment.entry h (by simp : (key, v) ∈ _)
      simp only [decodeValue, decodeEntries_replace (ih hv _)]
  | trans h₁ _ ih₁ ih₂ => exact (ih₁ h current).trans (ih₂ (h.reordered h₁) current)

/-! ## Documents that decode -/

/-- A field answers to its name under folding. -/
theorem fieldFor_foldName {fields : List (String × GoType)} {key : String} {i : ℕ}
    (h : fieldFor fields key = some i) :
    ∃ f, fields[i]? = some f ∧ foldName f.1 = foldName key := by
  unfold fieldFor at h
  cases hexact : fields.findIdx? fun f => f.1 = key with
  | some j =>
      rw [hexact] at h
      obtain rfl := Option.some.inj h
      obtain ⟨hlt, hj, -⟩ := List.findIdx?_eq_some_iff_getElem.1 hexact
      exact ⟨fields[j], List.getElem?_eq_getElem hlt, congrArg foldName (of_decide_eq_true hj)⟩
  | none =>
      rw [hexact] at h
      obtain ⟨hlt, hi, -⟩ := List.findIdx?_eq_some_iff_getElem.1 h
      exact ⟨fields[i], List.getElem?_eq_getElem hlt, of_decide_eq_true hi⟩

/-- Known keys go to the same field exactly when they are equal under folding. -/
theorem fieldFor_eq_iff {fields : List (String × GoType)} {a b : String} {i j : ℕ}
    (hnodup : (fields.map fun f => foldName f.1).Nodup) (ha : fieldFor fields a = some i)
    (hb : fieldFor fields b = some j) :
    fieldFor fields a = fieldFor fields b ↔ foldName a = foldName b := by
  obtain ⟨f, hf, hfa⟩ := fieldFor_foldName ha
  obtain ⟨g, hg, hgb⟩ := fieldFor_foldName hb
  rw [ha, hb, Option.some_inj]
  constructor
  · intro hij
    subst hij
    rw [← hfa, ← hgb, Option.some.inj (hf.symm.trans hg)]
  · intro hfold
    have hi : (fields.map fun f => foldName f.1)[i]? = some (foldName a) := by simp [hf, hfa]
    have hj : (fields.map fun f => foldName f.1)[j]? = some (foldName a) := by
      simp [hg, hgb, hfold]
    have hlt : i < (fields.map fun f => foldName f.1).length :=
      (List.getElem?_eq_some_iff.1 hi).1
    exact (List.getElem?_inj hlt hnodup).1 (hi.trans hj.symm)

/-- The fields of a struct inside a type with distinct names have distinct names. -/
theorem DecodedAsStruct.foldDistinct {ty : GoType} {j : Json} {fields : List (String × GoType)}
    {members : List (String × Json)} (hin : DecodedAsStruct ty j fields members)
    (hd : ty.foldDistinct = true) : (fields.map fun f => foldName f.1).Nodup := by
  induction hin with
  | here => exact (foldDistinct_struct hd).1
  | @field fields fields' members members' key name v i ty _ _ hget _ ih =>
      have hmem : (name, ty) ∈ fields := List.mem_of_getElem? hget
      have hall : ∀ fs : List (String × GoType), fieldsFoldDistinct fs = true →
          (name, ty) ∈ fs → ty.foldDistinct = true := by
        intro fs
        induction fs with
        | nil => intro _ hnil; cases hnil
        | cons f fs ihs =>
            obtain ⟨_, tf⟩ := f
            intro hfs hmem
            simp only [fieldsFoldDistinct, Bool.and_eq_true] at hfs
            rcases List.mem_cons.1 hmem with heq | hmem
            · obtain ⟨-, rfl⟩ := Prod.mk.inj heq
              exact hfs.1
            · exact ihs hfs.2 hmem
      exact ih (hall fields (foldDistinct_struct hd).2 hmem)
  | elem _ _ ih => exact ih hd
  | entry _ _ ih => exact ih hd

theorem decodeMembers_accepts {fields : List (String × GoType)} {values out : List GoValue}
    {ms : List (String × Json)} (h : decodeMembers fields values ms = some out)
    {m : String × Json} (hm : m ∈ ms) :
    ∃ i name ty current v, fieldFor fields m.1 = some i ∧ fields[i]? = some (name, ty) ∧
      decodeValue ty current m.2 = some v := by
  induction ms generalizing values with
  | nil => cases hm
  | cons m₁ ms ih =>
      rw [decodeMembers_cons] at h
      obtain ⟨values', hassign, hrest⟩ := Option.bind_eq_some_iff.1 h
      rcases List.mem_cons.1 hm with heq | hm
      · subst heq
        obtain ⟨i, hfor, hassign⟩ := Option.bind_eq_some_iff.1 hassign
        obtain ⟨field, hget, hassign⟩ := Option.bind_eq_some_iff.1 hassign
        obtain ⟨current, -, hassign⟩ := Option.bind_eq_some_iff.1 hassign
        obtain ⟨v, hv, -⟩ := Option.map_eq_some_iff.1 hassign
        exact ⟨i, field.1, field.2, current, v, hfor, hget, hv⟩
      · exact ih hrest hm

theorem decodeElems_accepts {elem : GoType} {out : List GoValue} {vs : List Json}
    (h : decodeElems elem vs = some out) {v : Json} (hv : v ∈ vs) :
    ∃ e, decodeValue elem elem.zero v = some e := by
  induction vs generalizing out with
  | nil => cases hv
  | cons w vs ih =>
      rw [decodeElems] at h
      cases hw : decodeValue elem elem.zero w with
      | none => simp [hw] at h
      | some e =>
          rw [hw] at h
          obtain ⟨out', hout, -⟩ := Option.map_eq_some_iff.1 h
          rcases List.mem_cons.1 hv with heq | hv
          · exact ⟨e, heq ▸ hw⟩
          · exact ih hout hv

theorem decodeEntries_accepts {value : GoType} {entries out : List (String × GoValue)}
    {ms : List (String × Json)} (h : decodeEntries value entries ms = some out)
    {m : String × Json} (hm : m ∈ ms) : ∃ e, decodeValue value value.zero m.2 = some e := by
  induction ms generalizing entries with
  | nil => cases hm
  | cons m₁ ms ih =>
      rw [decodeEntries] at h
      cases hw : decodeValue value value.zero m₁.2 with
      | none => simp [hw] at h
      | some e =>
          rw [hw] at h
          rcases List.mem_cons.1 hm with heq | hm
          · exact ⟨e, heq ▸ hw⟩
          · exact ih h hm

/-- In a document that decodes, every key of an object decoded into a struct has its field. -/
theorem DecodedAsStruct.known {ty : GoType} {j : Json} {fields : List (String × GoType)}
    {members : List (String × Json)} (hin : DecodedAsStruct ty j fields members)
    {current v : GoValue} (h : decodeValue ty current j = some v) :
    ∀ key ∈ members.map Prod.fst, ∃ i, fieldFor fields key = some i := by
  induction hin generalizing current v with
  | here =>
      intro key hkey
      obtain ⟨m, hm, rfl⟩ := List.mem_map.1 hkey
      obtain ⟨out, hout, -⟩ := Option.map_eq_some_iff.1 h
      obtain ⟨i, _, _, _, _, hi, -⟩ := decodeMembers_accepts hout hm
      exact ⟨i, hi⟩
  | field hmem hfor hget _ ih =>
      obtain ⟨out, hout, -⟩ := Option.map_eq_some_iff.1 h
      obtain ⟨i, name, ty, current', v', hi, hty, hv⟩ := decodeMembers_accepts hout hmem
      obtain rfl := Option.some.inj (hfor.symm.trans hi)
      obtain ⟨-, rfl⟩ := Prod.mk.inj (Option.some.inj (hget.symm.trans hty))
      exact ih hv
  | elem hmem _ ih =>
      obtain ⟨out, hout, -⟩ := Option.map_eq_some_iff.1 h
      obtain ⟨e, he⟩ := decodeElems_accepts hout hmem
      exact ih he
  | entry hmem _ ih =>
      obtain ⟨out, hout, -⟩ := Option.map_eq_some_iff.1 h
      obtain ⟨e, he⟩ := decodeEntries_accepts hout hmem
      exact ih he

/-- For a document that decodes, no field is assigned twice exactly when no object decoded into a
struct has two keys equal under case folding. -/
theorem singleAssignment_iff {ty : GoType} {j : Json} {current v : GoValue}
    (hd : ty.foldDistinct = true) (h : decodeValue ty current j = some v) :
    SingleAssignment ty j ↔ FoldDistinctKeys ty j := by
  refine forall_congr' fun fields => forall_congr' fun members => forall_congr' fun hin => ?_
  have hknown := hin.known h
  have hnodup := hin.foldDistinct hd
  refine List.Pairwise.iff_of_mem fun {a b} ha hb => ?_
  obtain ⟨i, hi⟩ := hknown a ha
  obtain ⟨j, hj⟩ := hknown b hb
  exact not_congr (fieldFor_eq_iff hnodup hi hj)

/-! ## Repeated keys -/

/-- The objects inside a value. -/
inductive ContainsObject : Json → List (String × Json) → Prop where
  | here {members : List (String × Json)} : ContainsObject (.object members) members
  | member {members members' : List (String × Json)} {key : String} {v : Json} :
      (key, v) ∈ members → ContainsObject v members' → ContainsObject (.object members) members'
  | elem {elems : List Json} {members' : List (String × Json)} {v : Json} :
      v ∈ elems → ContainsObject v members' → ContainsObject (.array elems) members'

/-- No object repeats a key. -/
def DistinctKeys (j : Json) : Prop :=
  ∀ members, ContainsObject j members → (members.map Prod.fst).Nodup

theorem distinctKeys_object {members : List (String × Json)} :
    DistinctKeys (.object members) ↔
      (members.map Prod.fst).Nodup ∧ ∀ m ∈ members, DistinctKeys m.2 := by
  constructor
  · intro h
    exact ⟨h members .here, fun m hm ms hin => h ms (.member hm hin)⟩
  · intro h ms hin
    cases hin with
    | here => exact h.1
    | member hmem hin => exact h.2 _ hmem ms hin

theorem distinctKeys_array {elems : List Json} :
    DistinctKeys (.array elems) ↔ ∀ v ∈ elems, DistinctKeys v := by
  constructor
  · intro h v hv ms hin
    exact h ms (.elem hv hin)
  · intro h ms hin
    cases hin with
    | elem hmem hin => exact h _ hmem ms hin

theorem distinctKeys_replace {l r : List (String × Json)} {key : String} {v v' : Json}
    (hv : DistinctKeys v → DistinctKeys v') (h : DistinctKeys (.object (l ++ (key, v) :: r))) :
    DistinctKeys (.object (l ++ (key, v') :: r)) := by
  rw [distinctKeys_object] at h ⊢
  refine ⟨by simpa using h.1, fun m hm => ?_⟩
  rcases mem_replaced (a := (key, v)) hm with heq | hm
  · subst heq
    exact hv (h.2 (key, v) (by simp))
  · exact h.2 m hm

/-- Reordering repeats no key. -/
theorem DistinctKeys.reordered {ty : GoType} {j j' : Json} (hre : Reordered ty j j')
    (h : DistinctKeys j) : DistinctKeys j' := by
  induction hre with
  | refl => exact h
  | members hperm =>
      rw [distinctKeys_object] at h ⊢
      exact ⟨(hperm.map Prod.fst).nodup_iff.1 h.1, fun m hm => h.2 m (hperm.symm.subset hm)⟩
  | field _ _ _ ih => exact distinctKeys_replace ih h
  | @elem l r v v' _ _ ih =>
      rw [distinctKeys_array] at h ⊢
      intro w hw
      rcases mem_replaced (a := v) hw with heq | hw
      · subst heq
        exact ih (h v (by simp))
      · exact h w hw
  | entry _ ih => exact distinctKeys_replace ih h
  | trans _ _ ih₁ ih₂ => exact ih₂ (ih₁ h)

/-! ## Encoded values repeat no key -/

theorem keys_encodeFields {fields : List (String × GoType)} {vs : List GoValue}
    (h : FieldsHaveType fields vs) :
    (encodeFields fields vs).map Prod.fst = fields.map Prod.fst := by
  induction vs generalizing fields with
  | nil =>
      rw [FieldsHaveType] at h
      subst h
      rfl
  | cons v vs ih =>
      cases fields with
      | nil => exact absurd h (by simp [FieldsHaveType])
      | cons f fields =>
          obtain ⟨name, ty⟩ := f
          simp only [encodeFields, List.map_cons, ih h.2]

theorem keys_encodeEntries (value : GoType) (entries : List (String × GoValue)) :
    (encodeEntries value entries).map Prod.fst = entries.map Prod.fst := by
  induction entries with
  | nil => rfl
  | cons e entries ih =>
      obtain ⟨key, v⟩ := e
      simp only [encodeEntries, List.map_cons, ih]

theorem distinctKeys_scalar {j : Json} (h : ∀ members, ¬ ContainsObject j members) :
    DistinctKeys j :=
  fun members hin => absurd hin (h members)

mutual

theorem distinctKeys_encodeValue : ∀ (v : GoValue) (ty : GoType), ty.foldDistinct = true →
    HasType ty v → DistinctKeys (encodeValue ty v)
  | .string _, _, _, _ => distinctKeys_scalar nofun
  | .int _, _, _, _ => distinctKeys_scalar nofun
  | .struct values, ty, hd, ht => by
      cases ty with
      | struct fields =>
          obtain ⟨hnodup, hfields⟩ := foldDistinct_struct hd
          have hnames : (fields.map Prod.fst).Nodup :=
            List.Nodup.of_map foldName (by simpa [Function.comp_def] using hnodup)
          refine distinctKeys_object.2 ⟨?_, distinctKeys_encodeFields values fields hfields ht⟩
          rw [keys_encodeFields ht]
          exact hnames
      | _ => exact distinctKeys_scalar nofun
  | .slice elems, ty, hd, ht => by
      cases ty with
      | slice elem => exact distinctKeys_array.2 (distinctKeys_encodeElems elems elem hd ht)
      | _ => exact distinctKeys_scalar nofun
  | .map entries, ty, hd, ht => by
      cases ty with
      | map value =>
          refine distinctKeys_object.2 ⟨?_, distinctKeys_encodeEntries entries value hd ht.2⟩
          rw [keys_encodeEntries]
          exact ht.1
      | _ => exact distinctKeys_scalar nofun
  | .nilSlice, _, _, _ => distinctKeys_scalar nofun
  | .nilMap, _, _, _ => distinctKeys_scalar nofun

theorem distinctKeys_encodeFields : ∀ (vs : List GoValue) (fields : List (String × GoType)),
    fieldsFoldDistinct fields = true → FieldsHaveType fields vs →
    ∀ m ∈ encodeFields fields vs, DistinctKeys m.2
  | [], _, _, _ => nofun
  | _ :: _, [], _, _ => nofun
  | v :: vs, (name, ty) :: fields, hd, ht => by
      simp only [fieldsFoldDistinct, Bool.and_eq_true] at hd
      intro m hm
      rcases List.mem_cons.1 hm with heq | hm
      · subst heq
        exact distinctKeys_encodeValue v ty hd.1 ht.1
      · exact distinctKeys_encodeFields vs fields hd.2 ht.2 m hm

theorem distinctKeys_encodeElems : ∀ (vs : List GoValue) (elem : GoType),
    elem.foldDistinct = true → ElemsHaveType elem vs →
    ∀ j ∈ encodeElems elem vs, DistinctKeys j
  | [], _, _, _ => nofun
  | v :: vs, elem, hd, ht => by
      intro j hj
      rcases List.mem_cons.1 hj with heq | hj
      · subst heq
        exact distinctKeys_encodeValue v elem hd ht.1
      · exact distinctKeys_encodeElems vs elem hd ht.2 j hj

theorem distinctKeys_encodeEntries : ∀ (entries : List (String × GoValue)) (value : GoType),
    value.foldDistinct = true → EntriesHaveType value entries →
    ∀ m ∈ encodeEntries value entries, DistinctKeys m.2
  | [], _, _, _ => nofun
  | (key, v) :: entries, value, hd, ht => by
      intro m hm
      rcases List.mem_cons.1 hm with heq | hm
      · subst heq
        exact distinctKeys_encodeValue v value hd ht.1
      · exact distinctKeys_encodeEntries entries value hd ht.2 m hm

end

end Lktrs.Foundation
