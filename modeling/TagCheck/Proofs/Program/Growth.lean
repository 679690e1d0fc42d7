import TagCheck.Proofs.Program.Parts

/-! How parts grow out of each other. Every part stands at certain places and is made of such
parts. On the way to the innermost part the number of branches is bounded, while stems are put into
each other without a bound. -/
namespace TagCheck

def Func.sites (f : Func) : List Position := f.name.toList.map fun i => i.node.pos

def Property.sites : Property → List Position
  | .keyValue .. | .spread .. => []
  | .method _ f => f.node.pos :: f.sites

namespace Part

/-- Where the part itself stands: at its node, at the keyword of a `return` statement, at the name
of a function and at its methods. -/
def sites : Part → List Position
  | stmt (.function f) => f.node.pos :: f.sites
  | stmt (.return_ pos _) => [pos]
  | stmt _ => []
  | expr (.function f) => f.node.pos :: f.sites
  | expr (.object n props) => n.pos :: props.flatMap Property.sites
  | expr e => [e.pos]
  | pattern p => [p.pos]
  | spread n _ => [n.pos]

/-- Parts that stand at certain places and are made of such parts. At most that many stand in each
other, besides stems. -/
inductive Grown (S : Position → Prop) : Nat → Part → Prop where
  | grow {w : Nat} {x : Part} : (∀ q ∈ x.sites, S q) → (∀ y, x.stem? = some y → Grown S (w + 1) y) →
    (∀ y ∈ x.branches, Grown S w y) → Grown S (w + 1) x

namespace Grown

variable {S : Position → Prop} {w v : Nat} {x y : Part}

theorem site (h : Grown S w x) : ∀ q ∈ x.sites, S q := by
  cases h
  assumption

theorem mono (h : Grown S w x) (hle : w ≤ v) : Grown S v x := by
  induction h generalizing v with
  | grow hsites _ _ hstem hbranches =>
    obtain ⟨v, rfl⟩ : ∃ u, v = u + 1 := Nat.exists_eq_add_one.2 (by omega)
    exact .grow hsites (fun y hy => hstem y hy hle) fun y hy => hbranches y hy (by omega)

theorem stmt {s : Stmt} (hs : ∀ q ∈ (Part.stmt s).sites, S q) (h : ∀ y ∈ s.branches, Grown S w y) :
    Grown S (w + 1) (.stmt s) :=
  .grow hs (by simp [stem?]) h

theorem pattern {p : Pattern} (hp : S p.pos) (h : ∀ y ∈ p.branches, Grown S w y) :
    Grown S (w + 1) (.pattern p) :=
  .grow (List.forall_mem_singleton.2 hp) (by simp [stem?]) h

theorem spread {n : Node} {e : Expr} (hn : S n.pos) (h : Grown S w (.expr e)) :
    Grown S (w + 1) (.spread n e) :=
  .grow (List.forall_mem_singleton.2 hn) (by simp [stem?]) (List.forall_mem_singleton.2 h)

/-- An expression without a stem. -/
theorem expr {e : Expr} (hstem : e.stem? = none) (hsites : (Part.expr e).sites = [e.pos])
    (he : S e.pos) (h : ∀ y ∈ e.branches, Grown S w y) : Grown S (w + 1) (.expr e) :=
  .grow (hsites ▸ List.forall_mem_singleton.2 he) (by simp [stem?, hstem]) h

/-- An expression that begins with another one. -/
theorem ofStem {e first : Expr} (hstem : e.stem? = some first)
    (hsites : (Part.expr e).sites = [e.pos]) (he : S e.pos) (hfirst : Grown S (w + 1) (.expr first))
    (h : ∀ y ∈ e.branches, Grown S w y) : Grown S (w + 1) (.expr e) :=
  .grow (hsites ▸ List.forall_mem_singleton.2 he) (by simpa [stem?, hstem] using hfirst) h

theorem pos_expr {e : Expr} (h : Grown S w (.expr e)) : S e.pos := by
  refine h.site _ ?_
  cases e <;> exact List.mem_cons_self ..

theorem pos_pattern {p : Pattern} (h : Grown S w (.pattern p)) : S p.pos :=
  h.site _ (List.mem_singleton_self _)

theorem ident {i : Ident} (hi : S i.node.pos) : Grown S (w + 1) (.pattern (.ident i)) :=
  .pattern hi (by simp [Pattern.branches])

/-- A pattern that stands where the part does and is made of what the part is made of. -/
theorem asPattern {p : Pattern} (h : Grown S w x) (hp : p.pos ∈ x.sites)
    (hbranches : ∀ v, (∀ y ∈ x.branches, Grown S v y) → ∀ y ∈ p.branches, Grown S v y) :
    Grown S w (.pattern p) := by
  cases h with
  | grow hsites _ h => exact .pattern (hsites _ hp) (hbranches _ h)

/-- What three dots stand before, as a pattern. -/
theorem asRest {n : Node} {e : Expr} {p : Pattern} (h : Grown S w (.spread n e))
    (hp : ∀ v, Grown S v (.expr e) → Grown S v (.pattern p)) : Grown S w (.pattern (.rest n p)) :=
  h.asPattern (List.mem_singleton_self _) fun v hv =>
    List.forall_mem_singleton.2 (hp v (hv _ (List.mem_singleton_self _)))

end Grown

end Part

end TagCheck
