import Mathlib.Algebra.Group.Nat.Defs
import NodalAlgebra.Element.Json
import NodalAlgebra.Proofs.Sequence

/-!
# Spellings of an element

An element has many spellings: a scalar element may be an object or the array of its
fields, a name may be a string or the key of a null, and objects may have members that
nobody asks for, in any order. `FiniteElement.Spelling` says which values spell which
element, and reading finds the element of exactly these (`FiniteElement.ofJson?_eq_some`).
What is written of an element is one of its spellings if the sizes in it can be written
(`FiniteElement.spelling_toJson`), and no other element is written the same way
(`FiniteElement.toJson_inj`), so that writing picks one spelling of each element
(`FiniteElement.json_round_trip`).
-/

namespace NodalAlgebra

/-! ## Members, names and sizes -/

namespace Json

/-- The value that some members hold under a key: that of the first member with the key,
whatever stands before and after it. -/
def Holds (members : List (String × Json)) (key : String) (j : Json) : Prop :=
  ∃ before after, members = before ++ (key, j) :: after ∧ ∀ m ∈ before, m.1 ≠ key

/-- A name is spelled as a string, or as an object whose only member has the name as its
key and holds a null. -/
inductive SpellsName (s : String) : Json → Prop
  | string : SpellsName s (.string s)
  | key : SpellsName s (.object [(s, .null)])

/-- A size is spelled with digits alone. -/
inductive SpellsSize (n : Nat) : Json → Prop
  | natural : n < Size.limit → SpellsSize n (.natural n)

theorem SpellsSize.lt {n : Nat} {j : Json} (h : SpellsSize n j) : n < Size.limit := by
  cases h with
  | natural h => exact h

theorem member?_eq_some {key : String} {members : List (String × Json)} {j : Json} :
    member? key members = some j ↔ Holds members key j := by
  induction members with
  | nil => simp [member?, Holds]
  | cons m rest ih =>
      rw [member?]
      by_cases hk : m.1 = key
      · -- the first member answers, so none can stand before it
        rw [if_pos hk, Option.some.injEq]
        constructor
        · rintro rfl
          exact ⟨[], rest, by rw [← hk, List.nil_append], by simp⟩
        · rintro ⟨before, after, h, hbefore⟩
          cases before with
          | nil => rw [(List.cons.inj h).1]
          | cons m' before =>
              rw [(List.cons.inj h).1] at hk
              exact absurd hk (hbefore m' (by simp))
      · rw [if_neg hk, ih]
        constructor
        · rintro ⟨before, after, rfl, hbefore⟩
          exact ⟨m :: before, after, rfl, List.forall_mem_cons.2 ⟨hk, hbefore⟩⟩
        · rintro ⟨before, after, h, hbefore⟩
          cases before with
          | nil => exact absurd (by rw [(List.cons.inj h).1]) hk
          | cons m' before =>
              exact ⟨before, after, (List.cons.inj h).2, fun x hx => hbefore x (by simp [hx])⟩

theorem name?_eq_some {s : String} {j : Json} : j.name? = some s ↔ SpellsName s j := by
  constructor
  · intro h
    unfold name? at h
    split at h
    · cases h
      exact .string
    · cases h
      exact .key
    · cases h
  · rintro (_ | _) <;> rfl

theorem size?_eq_some {n : Nat} {j : Json} : j.size? = some n ↔ SpellsSize n j := by
  constructor
  · intro h
    unfold size? at h
    split at h
    · rw [Option.ite_none_right_eq_some] at h
      obtain ⟨hlt, h⟩ := h
      cases h
      exact .natural hlt
    · cases h
  · rintro ⟨hlt⟩
    exact if_pos hlt

/-- Two sizes are read from an array of two items. -/
theorem sizes?_eq_pair {r c : Nat} {j : Json} :
    j.sizes? = some [r, c] ↔
      ∃ rows cols, j = .array [rows, cols] ∧ SpellsSize r rows ∧ SpellsSize c cols := by
  constructor
  · intro h
    unfold sizes? at h
    split at h
    · obtain ⟨rows, cols, rfl, hrows, hcols⟩ := forall₂_pair (mapM_eq_some.1 h).flip
      exact ⟨rows, cols, rfl, size?_eq_some.1 hrows, size?_eq_some.1 hcols⟩
    · cases h
  · rintro ⟨rows, cols, rfl, hr, hc⟩
    exact mapM_eq_some.2 (.cons (size?_eq_some.2 hr) (.cons (size?_eq_some.2 hc) .nil))

/-- What is looked up by its name is spelled as its name is. -/
theorem name?_bind_eq_some {γ : Type} {ofTag? : String → Option γ} {tag : γ → String}
    (htag : ∀ {s c}, ofTag? s = some c ↔ tag c = s) {j : Json} {c : γ} :
    j.name?.bind ofTag? = some c ↔ SpellsName (tag c) j := by
  rw [Option.bind_eq_some_iff]
  constructor
  · rintro ⟨s, hs, hc⟩
    rw [htag.1 hc]
    exact name?_eq_some.1 hs
  · intro h
    exact ⟨tag c, name?_eq_some.2 h, htag.2 rfl⟩

end Json

/-! ## Cells and families -/

theorem CellType.ofTag?_eq_some {s : String} {c : CellType} : ofTag? s = some c ↔ c.tag = s := by
  constructor
  · intro h
    simpa using List.find?_some h
  · rintro rfl
    cases c <;> rfl

theorem ElementFamily.ofTag?_eq_some {s : String} {f : ElementFamily} :
    ofTag? s = some f ↔ f.tag = s := by
  constructor
  · intro h
    simpa using List.find?_some h
  · rintro rfl
    cases f <;> rfl

theorem CellType.tag_inj {c d : CellType} (h : c.tag = d.tag) : c = d :=
  Option.some.inj ((ofTag?_eq_some.2 h).symm.trans (ofTag?_eq_some.2 rfl))

theorem ElementFamily.tag_inj {f g : ElementFamily} (h : f.tag = g.tag) : f = g :=
  Option.some.inj ((ofTag?_eq_some.2 h).symm.trans (ofTag?_eq_some.2 rfl))

/-! ## Scalar elements -/

namespace ScalarElement

/-- The values of the fields spell the family, the degree and the cell. -/
structure SpelledBy (e : ScalarElement) (family degree cell : Json) : Prop where
  family : Json.SpellsName e.family.tag family
  degree : Json.SpellsSize e.degree degree
  cell : Json.SpellsName e.cell.tag cell

/-- A scalar element is spelled as the array of its fields, or as an object that holds
them. -/
inductive Spelling (e : ScalarElement) : Json → Prop
  | array {family degree cell : Json} : e.SpelledBy family degree cell →
      Spelling e (.array [family, degree, cell])
  | object {members : List (String × Json)} {family degree cell : Json} :
      Json.Holds members "family" family → Json.Holds members "degree" degree →
      Json.Holds members "cell" cell → e.SpelledBy family degree cell →
      Spelling e (.object members)

theorem ofFields?_eq_some {family degree cell : Json} {e : ScalarElement} :
    ofFields? family degree cell = some e ↔ e.SpelledBy family degree cell := by
  unfold ofFields?
  simp only [Option.bind_eq_bind, Option.bind_eq_some_iff, Option.pure_def, Option.some.injEq,
    Json.size?_eq_some, ElementFamily.ofJson?, CellType.ofJson?,
    Json.name?_bind_eq_some ElementFamily.ofTag?_eq_some,
    Json.name?_bind_eq_some CellType.ofTag?_eq_some]
  constructor
  · rintro ⟨f, hf, n, hn, c, hc, rfl⟩
    exact ⟨hf, hn, hc⟩
  · rintro ⟨hf, hn, hc⟩
    exact ⟨e.family, hf, e.degree, hn, e.cell, hc, rfl⟩

theorem ofJson?_eq_some {j : Json} {e : ScalarElement} : ofJson? j = some e ↔ e.Spelling j := by
  constructor
  · intro h
    unfold ofJson? at h
    split at h
    · exact .array (ofFields?_eq_some.1 h)
    · simp only [Option.bind_eq_bind, Option.bind_eq_some_iff, Json.member?_eq_some] at h
      obtain ⟨family, hfamily, degree, hdegree, cell, hcell, h⟩ := h
      exact .object hfamily hdegree hcell (ofFields?_eq_some.1 h)
    · cases h
  · intro h
    cases h with
    | array h => exact ofFields?_eq_some.2 h
    | object hfamily hdegree hcell h =>
        rw [ofJson?, Json.member?_eq_some.2 hfamily, Json.member?_eq_some.2 hdegree,
          Json.member?_eq_some.2 hcell]
        exact ofFields?_eq_some.2 h

theorem Spelling.degree_lt {e : ScalarElement} {j : Json} (h : e.Spelling j) :
    e.degree < Size.limit := by
  cases h with
  | array h => exact h.degree.lt
  | object _ _ _ h => exact h.degree.lt

theorem spelling_toJson {e : ScalarElement} : e.Spelling e.toJson ↔ e.degree < Size.limit := by
  refine ⟨Spelling.degree_lt, fun h => ?_⟩
  exact .object ⟨[], _, rfl, by simp⟩ ⟨[_], _, rfl, by simp⟩ ⟨[_, _], _, rfl, by simp⟩
    ⟨.string, .natural h, .string⟩

theorem toJson_inj {e e' : ScalarElement} (h : e.toJson = e'.toJson) : e = e' := by
  obtain ⟨f, n, c⟩ := e
  obtain ⟨f', n', c'⟩ := e'
  simp only [toJson, Json.object.injEq, List.cons.injEq, Prod.mk.injEq, Json.string.injEq,
    Json.natural.injEq, true_and, and_true] at h
  obtain ⟨hf, rfl, hc⟩ := h
  rw [ElementFamily.tag_inj hf, CellType.tag_inj hc]

end ScalarElement

/-! ## Elements -/

namespace FiniteElement

/-- The degree and the dimensions of an element are sizes. -/
def Sized (e : FiniteElement) : Prop :=
  e.scalarElement.degree < Size.limit ∧ ∀ d ∈ e.valueShape.dims, d < Size.limit

instance (e : FiniteElement) : Decidable e.Sized := inferInstanceAs (Decidable (_ ∧ _))

/-- An element is spelled as an object with its kind as the only key. A scalar element
follows in any of its spellings; a vector or tensor element follows as an object that
holds the scalar element and the dimensions. -/
inductive Spelling : FiniteElement → Json → Prop
  | scalar {e : ScalarElement} {j : Json} : e.Spelling j →
      Spelling (.scalar e) (.object [("Scalar", j)])
  | vector {e : ScalarElement} {n : Nat} {members : List (String × Json)} {sub dim : Json} :
      Json.Holds members "sub" sub → Json.Holds members "dim" dim →
      e.Spelling sub → Json.SpellsSize n dim →
      Spelling (.vector e n) (.object [("Vector", .object members)])
  | tensor {e : ScalarElement} {r c : Nat} {members : List (String × Json)}
      {sub rows cols : Json} :
      Json.Holds members "sub" sub → Json.Holds members "shape" (.array [rows, cols]) →
      e.Spelling sub → Json.SpellsSize r rows → Json.SpellsSize c cols →
      Spelling (.tensor e r c) (.object [("Tensor", .object members)])

theorem ofJson?_eq_some {j : Json} {e : FiniteElement} : ofJson? j = some e ↔ e.Spelling j := by
  constructor
  · intro h
    unfold ofJson? at h
    split at h
    · unfold ofContent? at h
      split at h
      · obtain ⟨e, he, rfl⟩ := Option.map_eq_some_iff.1 h
        exact .scalar (ScalarElement.ofJson?_eq_some.1 he)
      · simp only [Option.bind_eq_bind, Option.bind_eq_some_iff, Option.pure_def,
          Option.some.injEq, Json.member?_eq_some, Json.size?_eq_some,
          ScalarElement.ofJson?_eq_some] at h
        obtain ⟨sub, hsub, e, he, dim, hdim, n, hn, rfl⟩ := h
        exact .vector hsub hdim he hn
      · simp only [Option.bind_eq_bind, Option.bind_eq_some_iff, Json.member?_eq_some,
          ScalarElement.ofJson?_eq_some] at h
        obtain ⟨sub, hsub, e, he, shape, hshape, dims, hdims, h⟩ := h
        split at h
        · cases h
          obtain ⟨rows, cols, rfl, hr, hc⟩ := Json.sizes?_eq_pair.1 hdims
          exact .tensor hsub hshape he hr hc
        · cases h
      · cases h
    · cases h
  · intro h
    cases h with
    | scalar he => exact congrArg (Option.map _) (ScalarElement.ofJson?_eq_some.2 he)
    | vector hsub hdim he hn =>
        simp [ofJson?, ofContent?, Json.member?_eq_some.2 hsub, Json.member?_eq_some.2 hdim,
          ScalarElement.ofJson?_eq_some.2 he, Json.size?_eq_some.2 hn]
    | tensor hsub hshape he hr hc =>
        have hdims := Json.sizes?_eq_pair.2 ⟨_, _, rfl, hr, hc⟩
        simp [ofJson?, ofContent?, Json.member?_eq_some.2 hsub, Json.member?_eq_some.2 hshape,
          ScalarElement.ofJson?_eq_some.2 he, hdims]

/-- Only sizes can be spelled. -/
theorem Spelling.sized {e : FiniteElement} {j : Json} (h : e.Spelling j) : e.Sized := by
  cases h with
  | scalar he => exact ⟨he.degree_lt, by simp [valueShape, Shape.scalar]⟩
  | vector _ _ he hn => exact ⟨he.degree_lt, by simpa [valueShape, Shape.vector] using hn.lt⟩
  | tensor _ _ he hr hc =>
      exact ⟨he.degree_lt, by simpa [valueShape, Shape.matrix] using ⟨hr.lt, hc.lt⟩⟩

/-- What is written of an element spells it exactly if its sizes can be written. -/
theorem spelling_toJson {e : FiniteElement} : e.Spelling e.toJson ↔ e.Sized := by
  refine ⟨Spelling.sized, fun ⟨hdegree, hdims⟩ => ?_⟩
  have he := ScalarElement.spelling_toJson.2 hdegree
  cases e with
  | scalar e => exact .scalar he
  | vector e n =>
      exact .vector ⟨[], _, rfl, by simp⟩ ⟨[_], _, rfl, by simp⟩ he
        (.natural (hdims n (by simp [valueShape, Shape.vector])))
  | tensor e r c =>
      exact .tensor ⟨[], _, rfl, by simp⟩ ⟨[_], _, rfl, by simp⟩ he
        (.natural (hdims r (by simp [valueShape, Shape.matrix])))
        (.natural (hdims c (by simp [valueShape, Shape.matrix])))

/-- Different elements are written differently. -/
theorem toJson_inj {e e' : FiniteElement} (h : e.toJson = e'.toJson) : e = e' := by
  cases e <;> cases e' <;> simp only [toJson, Json.object.injEq, Json.array.injEq,
    Json.natural.injEq, List.cons.injEq, Prod.mk.injEq, String.reduceEq, false_and, true_and,
    and_true] at h
  · rw [ScalarElement.toJson_inj h]
  · rw [ScalarElement.toJson_inj h.1, h.2]
  · rw [ScalarElement.toJson_inj h.1, h.2.1, h.2.2]

/-- Reading finds the element of exactly the spellings, and writing picks one spelling of
each element with sizes that can be written. Such an element is read back from what is
written of it, and so is one that has been read from any other spelling. Two values lead to
one written form exactly if they spell the same element or both spell none, and different
elements are written differently. -/
theorem json_round_trip :
    (∀ e : FiniteElement, e.Sized → ofJson? e.toJson = some e)
      ∧ (∀ j e, ofJson? j = some e ↔ e.Spelling j)
      ∧ (∀ j e, ofJson? j = some e → ofJson? e.toJson = some e)
      ∧ (∀ j j', (ofJson? j).map toJson = (ofJson? j').map toJson ↔ ofJson? j = ofJson? j')
      ∧ ∀ e e' : FiniteElement, e.toJson = e'.toJson → e = e' := by
  have hwritten : ∀ e : FiniteElement, e.Sized → ofJson? e.toJson = some e := by
    intro e he
    exact ofJson?_eq_some.2 (spelling_toJson.2 he)
  refine ⟨hwritten, fun j e => ofJson?_eq_some, ?_, ?_, fun e e' => toJson_inj⟩
  · intro j e h
    exact hwritten e (ofJson?_eq_some.1 h).sized
  · intro j j'
    exact ⟨fun h => Option.map_injective (fun e e' => toJson_inj) h, congrArg _⟩

/-- A matrix element with the largest dimension, spelled with its fields in another order,
one of them unknown, an array for the scalar element and a null for its family. -/
theorem json_round_trip_matrices :
    let e : FiniteElement := .tensor ⟨.lagrange, 3, .hexahedron⟩ 2 (2 ^ 64 - 1)
    let j : Json := .object [("Tensor", .object
      [("shape", .array [.natural 2, .natural (2 ^ 64 - 1)]), ("weight", .decimal "0.5"),
        ("sub", .array [.object [("Lagrange", .null)], .natural 3, .string "Hexahedron"])])]
    e.Sized ∧ e.Spelling j ∧ ofJson? j = some e ∧ ofJson? e.toJson = some e
      ∧ (ofJson? j).map toJson = (ofJson? e.toJson).map toJson := by
  intro e j
  obtain ⟨hwritten, hread, hagain, hcanonical, -⟩ := json_round_trip
  have he : e.Sized := by decide
  have hj : ofJson? j = some e := rfl
  exact ⟨he, (hread j e).1 hj, hj, hwritten e he,
    (hcanonical j e.toJson).2 (hj.trans (hagain j e hj).symm)⟩

end FiniteElement

end NodalAlgebra
