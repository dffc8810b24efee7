import Mathlib.Data.List.Basic
import TinyLang.Table

/-!
# Tables

What a table holds after it has been written to, and in which order.

* `Text.before_trans`, `Text.before_of_not`: the byte order is a strict total order.
* `Table.Ordered`: the names stand in that order, so each stands once (`Table.find?_eq_some`).
  Inserting keeps it, so the tables of entries and the tables gathered have it.
* `Table.find?_ofEntries`, `Table.find?_gather`: of the entries of a name a table has the last, and
  a gathered table has all.
-/

namespace TinyLang

/-! ## The byte order -/

namespace Text

theorem before_irrefl (t : Text) : before t t = false := by
  induction t with
  | nil => rfl
  | cons b r ih => simp [before, ih]

theorem before_trans {a b c : Text} (h : before a b = true) (h' : before b c = true) :
    before a c = true := by
  induction a generalizing b c with
  | nil =>
    cases c with
    | nil => simp [before] at h'
    | cons z c => rfl
  | cons x a ih =>
    cases b with
    | nil => cases h
    | cons y b =>
      cases c with
      | nil => cases h'
      | cons z c =>
        simp only [before, Bool.or_eq_true, Bool.and_eq_true, decide_eq_true_eq] at h h' ⊢
        rcases h with h | ⟨rfl, h⟩
        · rcases h' with h' | ⟨rfl, -⟩
          · exact .inl (UInt8.lt_trans h h')
          · exact .inl h
        · rcases h' with h' | ⟨rfl, h'⟩
          · exact .inl h'
          · exact .inr ⟨rfl, ih h h'⟩

/-- Of two texts that differ one is before the other. -/
theorem before_of_not {a b : Text} (hne : a ≠ b) (h : ¬ before a b = true) : before b a = true := by
  induction a generalizing b with
  | nil =>
    cases b with
    | nil => exact absurd rfl hne
    | cons y b => exact absurd rfl h
  | cons x a ih =>
    cases b with
    | nil => rfl
    | cons y b =>
      simp only [before, Bool.or_eq_true, Bool.and_eq_true, decide_eq_true_eq, not_or] at h ⊢
      obtain ⟨hlt, hrest⟩ := h
      by_cases hxy : x = y
      · subst hxy
        have htail : a ≠ b := by
          rintro rfl
          exact hne rfl
        exact .inr ⟨rfl, ih htail fun hab => hrest ⟨rfl, hab⟩⟩
      · exact .inl (UInt8.lt_of_le_of_ne (UInt8.not_lt.mp hlt) (Ne.symm hxy))

end Text

namespace Table

variable {α β : Type}

/-! ## Order -/

/-- The names stand in the byte order. -/
def Ordered (t : Table α) : Prop := t.Pairwise fun e e' => e.1.before e'.1 = true

theorem mem_insert {t : Table α} {name : Text} {v : α} {e : Text × α} (h : e ∈ t.insert name v) :
    e = (name, v) ∨ e ∈ t := by
  induction t with
  | nil => exact .inl (List.mem_singleton.mp h)
  | cons x rest ih =>
    rw [insert] at h
    by_cases hname : x.1 = name
    · rw [if_pos hname] at h
      exact (List.mem_cons.mp h).imp_right (List.mem_cons_of_mem _)
    rw [if_neg hname] at h
    by_cases hbefore : name.before x.1 = true
    · rw [if_pos hbefore] at h
      exact List.mem_cons.mp h
    rw [if_neg hbefore] at h
    rcases List.mem_cons.mp h with rfl | h
    · exact .inr List.mem_cons_self
    · exact (ih h).imp_right (List.mem_cons_of_mem _)

/-- **Inserting keeps the order.** -/
theorem Ordered.insert {t : Table α} (h : t.Ordered) (name : Text) (v : α) :
    Ordered (t.insert name v) := by
  induction t with
  | nil => exact List.pairwise_singleton _ _
  | cons x rest ih =>
    obtain ⟨hfirst, hrest⟩ := List.pairwise_cons.mp h
    rw [Table.insert]
    by_cases hname : x.1 = name
    · rw [if_pos hname]
      exact List.pairwise_cons.mpr ⟨fun e he => hname ▸ hfirst e he, hrest⟩
    rw [if_neg hname]
    by_cases hbefore : name.before x.1 = true
    · rw [if_pos hbefore]
      refine List.pairwise_cons.mpr ⟨fun e he => ?_, h⟩
      rcases List.mem_cons.mp he with rfl | he
      · exact hbefore
      · exact Text.before_trans hbefore (hfirst e he)
    · rw [if_neg hbefore]
      refine List.pairwise_cons.mpr ⟨fun e he => ?_, ih hrest⟩
      rcases mem_insert he with rfl | he
      · exact Text.before_of_not (Ne.symm hname) hbefore
      · exact hfirst e he

/-- What is gathered is in order. -/
theorem ordered_gather (entries : List (Text × α)) : (gather entries).Ordered := by
  have hfold : ∀ (es : List (Text × α)) (t : Table (List α)), t.Ordered →
      Ordered (es.foldl (fun t e => Table.insert t e.1 ((find? t e.1).getD [] ++ [e.2])) t) := by
    intro es
    induction es with
    | nil => exact fun t ht => ht
    | cons e es ih => exact fun t ht => ih _ (ht.insert _ _)
  exact hfold entries [] List.Pairwise.nil

theorem mem_of_find? {t : Table α} {name : Text} {v : α} (h : t.find? name = some v) :
    (name, v) ∈ t := by
  induction t with
  | nil => cases h
  | cons e rest ih =>
    obtain ⟨n, w⟩ := e
    rw [find?] at h
    split_ifs at h with hn
    · cases h
      exact hn ▸ List.mem_cons_self
    · exact List.mem_cons_of_mem _ (ih h)

/-- **In a table in order each name stands once**: what stands in it is what is found. -/
theorem Ordered.find?_eq_some {t : Table α} (h : t.Ordered) {name : Text} {v : α} :
    t.find? name = some v ↔ (name, v) ∈ t := by
  refine ⟨mem_of_find?, fun hmem => ?_⟩
  induction t with
  | nil => cases hmem
  | cons e rest ih =>
    obtain ⟨hfirst, hrest⟩ := List.pairwise_cons.mp h
    rw [find?]
    rcases List.mem_cons.mp hmem with rfl | hmem
    · exact if_pos rfl
    · have hbefore := hfirst _ hmem
      rw [if_neg, ih hrest hmem]
      rintro rfl
      rw [Text.before_irrefl] at hbefore
      cases hbefore

/-! ## Other values -/

theorem find?_mapValues (f : α → β) (t : Table α) (name : Text) :
    (t.mapValues f).find? name = (t.find? name).map f := by
  induction t with
  | nil => rfl
  | cons e rest ih =>
    obtain ⟨n, v⟩ := e
    show (if n = name then some (f v) else find? (mapValues f rest) name) =
      (if n = name then some v else find? rest name).map f
    split
    · rfl
    · exact ih

theorem insert_mapValues (f : α → β) (t : Table α) (name : Text) (v : α) :
    (t.insert name v).mapValues f = (t.mapValues f).insert name (f v) := by
  induction t with
  | nil => rfl
  | cons e rest ih =>
    obtain ⟨n, w⟩ := e
    show mapValues f (insert ((n, w) :: rest) name v) =
      insert ((n, f w) :: mapValues f rest) name (f v)
    rw [insert, insert, ← ih]
    by_cases hname : n = name
    · simp only [hname, if_true]
      rfl
    · by_cases hbefore : name.before n <;> simp only [hname, hbefore, if_false, if_true] <;> rfl

/-- The table of entries with other values. -/
theorem ofEntries_map (f : α → β) (entries : List (Text × α)) :
    ofEntries (entries.map fun (name, v) => (name, f v)) =
      (ofEntries entries).mapValues f := by
  have hfold : ∀ (es : List (Text × α)) (t : Table α),
      (es.map fun (name, v) => (name, f v)).foldl (fun t (name, v) => insert t name v)
          (t.mapValues f) =
        (es.foldl (fun t (name, v) => insert t name v) t).mapValues f := by
    intro es
    induction es with
    | nil => exact fun t => rfl
    | cons e rest ih =>
      intro t
      rw [List.map_cons, List.foldl_cons, List.foldl_cons, ← ih, insert_mapValues]
  exact hfold entries []

/-! ## Tables of entries -/

/-- A name that has a value keeps having one. -/
theorem has_insert {t : Table α} {name : Text} (h : t.has name = true)
    (other : Text) (v : α) : (t.insert other v).has name = true := by
  unfold has at *
  by_cases heq : name = other
  · rw [heq, find?_insert_self]
    rfl
  · rwa [find?_insert_of_ne _ _ heq]

/-- The values of the entries of a name, in order. -/
def valuesOf (entries : List (Text × α)) (name : Text) : List α :=
  (entries.filter fun e => e.1 = name).map Prod.snd

theorem mem_valuesOf {entries : List (Text × α)} {name : Text} {v : α} :
    v ∈ valuesOf entries name ↔ (name, v) ∈ entries := by
  simp [valuesOf]

/-- **Of the entries of a name the last one counts.** -/
theorem find?_ofEntries (entries : List (Text × α)) (name : Text) :
    (ofEntries entries).find? name = (valuesOf entries name).getLast? := by
  have hfold : ∀ (es : List (Text × α)) (t : Table α),
      find? (es.foldl (fun t e => insert t e.1 e.2) t) name =
        (valuesOf es name).getLast?.or (t.find? name) := by
    intro es
    induction es with
    | nil => exact fun t => rfl
    | cons e es ih =>
      intro t
      rw [List.foldl_cons, ih]
      by_cases he : e.1 = name
      · have hvalues : valuesOf (e :: es) name = e.2 :: valuesOf es name := by simp [valuesOf, he]
        rw [he, find?_insert_self, hvalues, List.getLast?_cons]
        cases (valuesOf es name).getLast? <;> rfl
      · have hvalues : valuesOf (e :: es) name = valuesOf es name := by simp [valuesOf, he]
        rw [find?_insert_of_ne _ _ (Ne.symm he), hvalues]
  exact (hfold entries []).trans (Option.or_none)

/-- What is gathered for a name is the values of its entries, if it has one. -/
theorem find?_gather (entries : List (Text × α)) (name : Text) :
    (gather entries).find? name =
      if (valuesOf entries name).isEmpty then none else some (valuesOf entries name) := by
  have hfold : ∀ (es : List (Text × α)) (t : Table (List α)),
      find? (es.foldl (fun t e => insert t e.1 ((find? t e.1).getD [] ++ [e.2])) t) name =
        if (valuesOf es name).isEmpty then t.find? name
        else some ((t.find? name).getD [] ++ valuesOf es name) := by
    intro es
    induction es with
    | nil => exact fun t => rfl
    | cons e es ih =>
      intro t
      rw [List.foldl_cons, ih]
      by_cases he : e.1 = name
      · subst he
        have hvalues : valuesOf (e :: es) e.1 = e.2 :: valuesOf es e.1 := by simp [valuesOf]
        rw [find?_insert_self, hvalues]
        cases valuesOf es e.1 <;> simp
      · have hvalues : valuesOf (e :: es) name = valuesOf es name := by simp [valuesOf, he]
        rw [find?_insert_of_ne _ _ (Ne.symm he), hvalues]
  exact hfold entries []

/-- What stands in a gathered table. -/
theorem mem_gather {entries : List (Text × α)} {name : Text} {vs : List α} :
    (name, vs) ∈ gather entries ↔ vs = valuesOf entries name ∧ vs ≠ [] := by
  rw [← (ordered_gather entries).find?_eq_some, find?_gather]
  by_cases hnil : valuesOf entries name = []
  · simp only [hnil, List.isEmpty_nil, if_true, reduceCtorEq, false_iff]
    rintro ⟨rfl, hne⟩
    exact hne rfl
  · rw [if_neg (by simpa using hnil), Option.some.injEq]
    constructor
    · rintro rfl
      exact ⟨rfl, hnil⟩
    · exact fun h => h.1.symm

end Table

end TinyLang
