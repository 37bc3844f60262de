/-!
# Registry — things kept by name

A `Registry` maps names to things of one type. It is kept in the order of the names, so two
registries that answer alike are equal (`Registry.ext_get?`). `get?` is the view: the lemmas say
what each operation does to it.
-/

namespace Colloquy

/-- Things by name, in the order of the names. -/
structure Registry (α : Type) where
  entries : List (String × α)
  sorted : entries.Pairwise fun a b => a.1 < b.1

namespace Registry

variable {α : Type}

/-- The entries with one added in its place, in the stead of one of the same name. -/
def insertEntry (name : String) (a : α) : List (String × α) → List (String × α)
  | [] => [(name, a)]
  | (k, b) :: rest =>
    if name < k then (name, a) :: (k, b) :: rest
    else if name = k then (name, a) :: rest
    else (k, b) :: insertEntry name a rest

/-- The thing of a name among entries. -/
def find? (name : String) : List (String × α) → Option α
  | [] => none
  | (k, b) :: rest => if k = name then some b else find? name rest

theorem lt_of_not_lt_of_ne {a b : String} (h : ¬ a < b) (hne : a ≠ b) : b < a := by
  rcases Decidable.em (b < a) with hlt | hge
  · exact hlt
  · exact absurd (String.le_antisymm (String.not_lt.1 hge) (String.not_lt.1 h)) hne

theorem mem_insertEntry {name : String} {a : α} {e : String × α} :
    ∀ {es : List (String × α)}, e ∈ insertEntry name a es → e = (name, a) ∨ e ∈ es
  | [], h => by simpa [insertEntry] using h
  | (k, b) :: rest, h => by
      rw [insertEntry] at h
      split at h
      · simpa using h
      · split at h
        · rcases List.mem_cons.1 h with h | h
          · exact .inl h
          · exact .inr (List.mem_cons_of_mem _ h)
        · rcases List.mem_cons.1 h with h | h
          · exact .inr (by simp [h])
          · exact (mem_insertEntry h).imp_right (List.mem_cons_of_mem _)

theorem sorted_insertEntry (name : String) (a : α) :
    ∀ {es : List (String × α)}, es.Pairwise (fun a b => a.1 < b.1) →
      (insertEntry name a es).Pairwise fun a b => a.1 < b.1
  | [], _ => by simp [insertEntry]
  | (k, b) :: rest, h => by
      have hk := (List.pairwise_cons.1 h).1
      rw [insertEntry]
      split
      · rename_i hlt
        refine List.pairwise_cons.2 ⟨fun e he => ?_, h⟩
        rcases List.mem_cons.1 he with rfl | he
        · exact hlt
        · exact String.lt_trans hlt (hk e he)
      · rename_i hge
        split
        · rename_i heq
          subst heq
          exact List.pairwise_cons.2 ⟨hk, h.of_cons⟩
        · rename_i hne
          refine List.pairwise_cons.2 ⟨fun e he => ?_, sorted_insertEntry name a h.of_cons⟩
          rcases mem_insertEntry he with rfl | he
          · exact lt_of_not_lt_of_ne hge hne
          · exact hk e he

/-- No things at all. -/
def empty : Registry α := ⟨[], .nil⟩

instance : Inhabited (Registry α) := ⟨empty⟩

/-- The thing of a name. -/
def get? (r : Registry α) (name : String) : Option α := find? name r.entries

/-- Whether there is a thing of a name. -/
def contains (r : Registry α) (name : String) : Bool := (r.get? name).isSome

/-- Keeps a thing under a name, in the stead of an earlier one. -/
def insert (r : Registry α) (name : String) (a : α) : Registry α :=
  ⟨insertEntry name a r.entries, sorted_insertEntry name a r.sorted⟩

/-- Forgets the thing of a name. -/
def erase (r : Registry α) (name : String) : Registry α :=
  ⟨r.entries.filter fun e => !decide (e.1 = name), r.sorted.filter _⟩

/-- The names, in order. -/
def names (r : Registry α) : List String := r.entries.map (·.1)

/-- How many things there are. -/
def size (r : Registry α) : Nat := r.entries.length

/-! ## What the operations do to the view -/

theorem find?_insertEntry (name : String) (a : α) (other : String) :
    ∀ es : List (String × α),
      find? other (insertEntry name a es) = if name = other then some a else find? other es
  | [] => by simp [insertEntry, find?]
  | (k, b) :: rest => by
      rw [insertEntry]
      split
      · simp [find?]
      · split
        · rename_i heq
          subst heq
          by_cases h : name = other <;> simp [find?, h]
        · rename_i hne
          rw [find?, find?_insertEntry name a other rest, find?]
          by_cases h : k = other
          · have : name ≠ other := fun e => hne (e.trans h.symm)
            simp [h, this]
          · simp [h]

theorem find?_filter_ne (name other : String) :
    ∀ es : List (String × α), find? other (es.filter fun e => !decide (e.1 = name)) =
      if name = other then none else find? other es
  | [] => by simp [find?]
  | (k, b) :: rest => by
      have ih := find?_filter_ne name other rest
      by_cases hk : k = name
      · subst hk
        rw [List.filter_cons_of_neg (by simp), ih, find?]
        split <;> rfl
      · rw [List.filter_cons_of_pos (by simp [hk]), find?, ih, find?]
        by_cases ho : k = other
        · subst ho
          simp [Ne.symm hk]
        · simp [ho]

theorem find?_eq_none_of_lt {name : String} :
    ∀ {es : List (String × α)}, (∀ e ∈ es, name < e.1) → find? name es = none
  | [], _ => rfl
  | (k, b) :: rest, h => by
      have hk : k ≠ name := fun e => String.lt_irrefl k (e ▸ h (k, b) (List.mem_cons_self ..))
      rw [find?, if_neg hk]
      exact find?_eq_none_of_lt fun e he => h e (List.mem_cons_of_mem _ he)

theorem find?_eq_some_iff {name : String} {a : α} :
    ∀ {es : List (String × α)}, es.Pairwise (fun a b => a.1 < b.1) →
      (find? name es = some a ↔ (name, a) ∈ es)
  | [], _ => by simp [find?]
  | (k, b) :: rest, h => by
      have hk := (List.pairwise_cons.1 h).1
      rw [find?]
      by_cases hn : k = name
      · subst hn
        have : (k, a) ∉ rest := fun hm => String.lt_irrefl k (hk _ hm)
        simp [this, eq_comm]
      · rw [if_neg hn, find?_eq_some_iff h.of_cons]
        simp [Ne.symm hn]

@[simp] theorem get?_empty (name : String) : (empty : Registry α).get? name = none := rfl

@[simp] theorem get?_insert (r : Registry α) (name : String) (a : α) (other : String) :
    (r.insert name a).get? other = if name = other then some a else r.get? other :=
  find?_insertEntry name a other r.entries

@[simp] theorem get?_erase (r : Registry α) (name other : String) :
    (r.erase name).get? other = if name = other then none else r.get? other :=
  find?_filter_ne name other r.entries

theorem get?_eq_some_iff {r : Registry α} {name : String} {a : α} :
    r.get? name = some a ↔ (name, a) ∈ r.entries :=
  find?_eq_some_iff r.sorted

theorem mem_names_iff {r : Registry α} {name : String} :
    name ∈ r.names ↔ (r.get? name).isSome = true := by
  rw [Option.isSome_iff_exists]
  simp only [names, List.mem_map, get?_eq_some_iff]
  constructor
  · rintro ⟨⟨k, a⟩, hm, rfl⟩
    exact ⟨a, hm⟩
  · rintro ⟨a, hm⟩
    exact ⟨_, hm, rfl⟩

theorem eq_of_find?_eq :
    ∀ {es fs : List (String × α)}, es.Pairwise (fun a b => a.1 < b.1) →
      fs.Pairwise (fun a b => a.1 < b.1) → (∀ n, find? n es = find? n fs) → es = fs
  | [], [], _, _, _ => rfl
  | [], (k, b) :: fs, _, _, h => by simpa [find?] using h k
  | (k, b) :: es, [], _, _, h => by simpa [find?] using h k
  | (k, b) :: es, (l, c) :: fs, hes, hfs, h => by
      have hk := (List.pairwise_cons.1 hes).1
      have hl := (List.pairwise_cons.1 hfs).1
      have hkl : k = l := by
        rcases Decidable.em (k < l) with hlt | hge
        · have hnone : find? k ((l, c) :: fs) = none :=
            find?_eq_none_of_lt fun e he => by
              rcases List.mem_cons.1 he with rfl | he
              · exact hlt
              · exact String.lt_trans hlt (hl e he)
          have := h k
          rw [hnone] at this
          simp [find?] at this
        · rcases Decidable.em (k = l) with heq | hne
          · exact heq
          · have hgt := lt_of_not_lt_of_ne hge hne
            have hnone : find? l ((k, b) :: es) = none :=
              find?_eq_none_of_lt fun e he => by
                rcases List.mem_cons.1 he with rfl | he
                · exact hgt
                · exact String.lt_trans hgt (hk e he)
            have := h l
            rw [hnone] at this
            simp [find?] at this
      subst hkl
      have hbc : b = c := by simpa [find?] using h k
      subst hbc
      refine congrArg _ (eq_of_find?_eq hes.of_cons hfs.of_cons fun n => ?_)
      rcases Decidable.em (k = n) with rfl | hn
      · rw [find?_eq_none_of_lt hk, find?_eq_none_of_lt hl]
      · simpa [find?, hn] using h n

/-- **Registries that answer alike are equal.** -/
theorem ext_get? {r s : Registry α} (h : ∀ name, r.get? name = s.get? name) : r = s := by
  have := eq_of_find?_eq r.sorted s.sorted h
  cases r
  cases s
  simp_all

end Registry

end Colloquy
