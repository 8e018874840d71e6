import NodalAlgebra.Expr.Build

/-!
# Shaped expressions

Expressions in which every operation declares the shape that follows from those of
its operands. Construction keeps to them: `unary_shaped`, `binary_shaped` and the
lemmas beside them say so of each constructor.
-/

namespace NodalAlgebra.Expr

variable {α : Type}

/-- Every operation of the expression declares the shape that follows from its
operands. -/
inductive Shaped [NatCast α] : Expr α → Prop
  | function (f : NodalFunction α) : Shaped (.function f)
  | constant (x : α) : Shaped (.constant x)
  | unary {op : Operator} {a : Expr α} {s : Shape} :
      Shaped a → op.unaryShape a.shape = .ok s → Shaped (.operation op [a] s)
  | binary {op : Operator} {a b : Expr α} {s : Shape} :
      Shaped a → Shaped b → op.binaryShape a.shape b.shape = .ok s →
      Shaped (.operation op [a, b] s)
  | component {a : Expr α} {index : List Nat} :
      Shaped a → a.shape.checkIndex index = .ok () →
      Shaped (.operation .indexed (a :: index.map fun (i : Nat) => .constant (i : α)) .scalar)

/-! ## Construction -/

theorem unary_shaped [NatCast α] {op : Operator} {a e : Expr α} (ha : Shaped a)
    (h : unary op a = .ok e) : Shaped e := by
  obtain ⟨s, hs, h⟩ := bind_eq_ok.1 h
  cases h
  exact .unary ha hs

theorem binary_shaped [NatCast α] {op : Operator} {a b e : Expr α} (ha : Shaped a)
    (hb : Shaped b) (h : binary op a b = .ok e) : Shaped e := by
  obtain ⟨s, hs, h⟩ := bind_eq_ok.1 h
  cases h
  exact .binary ha hb hs

theorem neg_shaped [NatCast α] [One α] [Neg α] {a e : Expr α} (ha : Shaped a)
    (h : neg a = .ok e) : Shaped e :=
  binary_shaped (.constant _) ha h

theorem sub_shaped [NatCast α] [One α] [Neg α] {a b e : Expr α} (ha : Shaped a) (hb : Shaped b)
    (h : sub a b = .ok e) : Shaped e := by
  obtain ⟨c, hc, h⟩ := bind_eq_ok.1 h
  exact binary_shaped ha (neg_shaped hb hc) h

theorem component_shaped [NatCast α] {a e : Expr α} {index : List Nat} (ha : Shaped a)
    (h : component a index = .ok e) : Shaped e := by
  obtain ⟨_, hindex, h⟩ := bind_eq_ok.1 h
  cases h
  exact .component ha hindex

end NodalAlgebra.Expr
