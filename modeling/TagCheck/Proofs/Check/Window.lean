import TagCheck.Proofs.Check.Closed
import TagCheck.Proofs.Check.Mentions
import TagCheck.Proofs.Shape.Compatibility

/-! What the rules look at. Two stores are the same within a region if they differ at most in what
is out of it and in what stands behind the last function shape. A rule that goes on in the same way
whichever of them it is shown has looked at nothing out of range. -/
namespace TagCheck

def CheckEnv.Binds (env : CheckEnv) (b : BindingId) : Prop := ∃ i, env.bindingOf? i = some b

/-- The target is a node of the region, or a binding that an identifier means. -/
def Target.Within (env : CheckEnv) (r : Region) : Target → Prop
  | node n => r.id n
  | binding b => env.Binds b

/-- Another store holds the same as far as the region and the arena go. -/
structure Store.SameWithin (env : CheckEnv) (r : Region) (s s' : Store) : Prop where
  pass : s'.pass = s.pass
  cells : ∀ t : Target, t.Within env r → s'.cell t = s.cell t
  functions : ∀ f, r.func f → s'.functionShape? f = s.functionShape? f
  natives : s'.natives = s.natives
  funcs : ∀ id < s.arena.size, s'.arena.get? id = s.arena.get? id
  touched : s'.touched = s.touched
  known : s'.known = s.known

/-! Function shapes that refer only to one another are compared and written out without a look at
what stands behind them. -/

namespace Arena

variable {a a' : Arena} (hclosed : ∀ id f, a.get? id = some f → f.Below a.size)
  (h : ∀ id < a.size, a'.get? id = a.get? id)

include hclosed in
theorem below_demands {s t : FuncShapeId} {f g : FuncShape} (hf : a.get? s = some f)
    (hg : a.get? t = some g) : ∀ d ∈ f.demands g,
      (∀ x ∈ d.1, x.Below a.size) ∧ ∀ x ∈ d.2, x.Below a.size := by
  have hf := hclosed s f hf
  have hg := hclosed t g hg
  refine List.forall_mem_append.2 ⟨List.forall_mem_map.2 fun p hp => ?_, ?_⟩
  · obtain ⟨hp, hq⟩ := List.of_mem_zip hp
    exact ⟨hg.params p.2 hq, hf.params p.1 hp⟩
  · exact List.forall_mem_singleton.2 ⟨hf.ret, hg.ret⟩

include hclosed h

theorem settle_congr (seen : List (FuncShapeId × FuncShapeId))
    (demands : List (Option Shape × Option Shape))
    (hdemands : ∀ d ∈ demands, (∀ x ∈ d.1, x.Below a.size) ∧ ∀ x ∈ d.2, x.Below a.size) :
    a'.settle seen demands = a.settle seen demands := by
  fun_induction a.settle seen demands with
  | case1 => rw [settle]
  | case2 seen demands ih =>
    rw [settle]
    exact ih (List.forall_mem_cons.1 hdemands).2
  | case3 seen s t demands ih =>
    rw [settle, ih (List.forall_mem_cons.1 hdemands).2]
  | case4 seen demands s ih =>
    rw [settle, dif_pos rfl]
    exact ih (List.forall_mem_cons.1 hdemands).2
  | case5 seen s t demands hst hseen ih =>
    rw [settle, dif_neg hst, dif_pos hseen]
    exact ih (List.forall_mem_cons.1 hdemands).2
  | case6 seen s t demands hst hseen f g hf hg ih =>
    obtain ⟨⟨hs, ht⟩, hrest⟩ := List.forall_mem_cons.1 hdemands
    rw [settle, dif_neg hst, dif_neg hseen]
    split
    · next f' g' hf' hg' =>
      obtain rfl : f = f' := by simpa [h s (hs _ rfl), hf] using hf'
      obtain rfl : g = g' := by simpa [h t (ht _ rfl), hg] using hg'
      rw [ih (List.forall_mem_append.2 ⟨below_demands hclosed hf hg, hrest⟩)]
    · next hnone =>
      rw [← h s (hs _ rfl)] at hf
      rw [← h t (ht _ rfl)] at hg
      exact absurd hg (hnone f g hf)
  | case7 seen s t demands hst hseen hnone =>
    obtain ⟨⟨hs, ht⟩, -⟩ := List.forall_mem_cons.1 hdemands
    rw [settle, dif_neg hst, dif_neg hseen]
    split
    · next f g hf hg =>
      rw [h s (hs _ rfl)] at hf
      rw [h t (ht _ rfl)] at hg
      exact absurd hg (hnone f g hf)
    · rfl
  | case8 seen d demands hnone harray hfunc => rw [settle] <;> assumption

theorem describeUnder_congr (path : List FuncShapeId) (x : Shape) (hx : x.Below a.size) :
    a'.describeUnder path x = a.describeUnder path x := by
  fun_induction a.describeUnder path x with
  | case1 path s => rw [describeUnder]
  | case2 path id hid => rw [describeUnder, dif_pos hid]
  | case3 path id hid hnone =>
    rw [describeUnder, dif_neg hid]
    split
    · rfl
    · next f hf => simp [h id hx, hnone] at hf
  | case4 path id hid f hf params rest ret ih =>
    rw [describeUnder, dif_neg hid]
    split
    · next hnone => simp [h id hx, hf] at hnone
    · next f' hf' =>
      obtain rfl : f = f' := by simpa [h id hx, hf] using hf'
      have hbelow := hclosed id f hf
      refine congrArg₂ (fun ps result => "(" ++ ",".intercalate ps ++ rest ++ ") => " ++ result)
        (List.map_congr_left fun p hp => ?_) ?_
      · have hparam := hbelow.params p hp
        cases hshape : p.shape with
        | none => rfl
        | some y => exact ih y (hparam y hshape)
      · have hret := hbelow.ret
        simp only [ret]
        cases hshape : f.ret.shape with
        | none => rfl
        | some y => exact ih y (hret y hshape)

end Arena

/-! What is looked up within a region. -/

namespace Store.SameWithin

variable {env : CheckEnv} {r : Region} {s s' : Store} (h : s.SameWithin env r s')

include h

section

variable {t : Target} (ht : t.Within env r)

include ht

theorem ty? : s'.ty? t = s.ty? t := by rw [Store.ty?, Store.ty?, h.cells t ht]

theorem shape? : s'.shape? t = s.shape? t := by rw [Store.shape?, Store.shape?, h.cells t ht]

theorem tag : s'.tag t = s.tag t := by rw [Store.tag, Store.tag, h.ty? ht]

theorem isUntyped : s'.isUntyped t = s.isUntyped t := by
  rw [Store.isUntyped, Store.isUntyped, h.tag ht]

theorem hasTypeThisPass : s'.hasTypeThisPass t = s.hasTypeThisPass t := by
  rw [Store.hasTypeThisPass, Store.hasTypeThisPass, h.cells t ht, h.pass]

theorem hasShapeThisPass : s'.hasShapeThisPass t = s.hasShapeThisPass t := by
  rw [Store.hasShapeThisPass, Store.hasShapeThisPass, h.cells t ht, h.pass]

end

theorem isTouched (x : Tracked) : s'.isTouched x = s.isTouched x := by
  rw [Store.isTouched, Store.isTouched, h.touched]

theorem shapeOfIdent (i : Ident) : ((env.bindingOf? i).bind fun b => s'.shape? (.binding b)) =
    (env.bindingOf? i).bind fun b => s.shape? (.binding b) :=
  Option.bind_congr fun _ hb => h.shape? ⟨i, hb⟩

theorem isSelfCall (id : FuncShapeId) (e : Expr) :
    Check.isSelfCall env s' id e = Check.isSelfCall env s id e := by
  unfold Check.isSelfCall
  split
  · next i _ => rw [h.shapeOfIdent i]
  · rfl

theorem gathered {es : List Element} (hes : r.Has (Element.nodes es) (Element.returns es))
    (g : Gathered) : g.elements s' es = g.elements s es := by
  fun_induction g.elements s es with
  | case1 => rw [Gathered.elements]
  | case2 g es ih =>
    simp only [Element.nodes, Element.returns] at hes
    rw [Gathered.elements, ih hes]
  | case3 => rw [Gathered.elements]
  | case4 g e es t hknown ih =>
    simp only [Element.nodes, Element.returns, Region.has_append] at hes
    have he : Target.Within env r (.node e.id) := Region.id_of_node (Expr.node_of_has hes.1)
    rw [Gathered.elements, h.tag he, h.shape? he, if_pos hknown, ih hes.2]
  | case5 g e es t hunknown =>
    simp only [Element.nodes, Element.returns, Region.has_append] at hes
    have he : Target.Within env r (.node e.id) := Region.id_of_node (Expr.node_of_has hes.1)
    rw [Gathered.elements, h.tag he, if_neg hunknown]

theorem inferArrayShape {es : List Element}
    (hes : r.Has (Element.nodes es) (Element.returns es)) :
    s'.inferArrayShape es = s.inferArrayShape es := by
  rw [Store.inferArrayShape, Store.inferArrayShape, h.gathered hes]

/-! Where shapes are compared and written out, all that they refer to is in the arena. -/

variable (hs : s.Closed)

include hs

theorem fits {x y : Option Shape} (hx : ∀ z ∈ x, z.Below s.arena.size)
    (hy : ∀ z ∈ y, z.Below s.arena.size) : s'.arena.fits x y = s.arena.fits x y :=
  Arena.settle_congr hs.funcs h.funcs [] [(x, y)] (List.forall_mem_singleton.2 ⟨hx, hy⟩)

theorem describe {x : Option Shape} (hx : ∀ z ∈ x, z.Below s.arena.size) :
    s'.arena.describe x = s.arena.describe x := by
  cases x with
  | none => rfl
  | some x => exact Arena.describeUnder_congr hs.funcs h.funcs [] x (hx x rfl)

theorem fits_array {n : NodeId} (hn : r.id n) (x : ArrayShape) :
    s'.arena.fits (s'.shape? (.node n)) (some (.array x)) =
      s.arena.fits (s.shape? (.node n)) (some (.array x)) := by
  rw [h.shape? (t := .node n) hn]
  exact h.fits hs (hs.shapes (.node n)) (by simp [Shape.Below])

omit hs in
theorem elementHasType {e : Element} (he : r.Has (Element.nodes [e]) (Element.returns [e]))
    (name : ElemName) : s'.elementHasType name e = s.elementHasType name e := by
  cases e with
  | item e =>
    simp only [Element.nodes, Element.returns, Region.has_append] at he
    rw [Store.elementHasType, Store.elementHasType,
      h.tag (t := .node e.id) (Region.id_of_node (Expr.node_of_has he.1))]
  | _ => rfl

/-- A value is compared with a shape by the elements that are written out, or by its node. -/
theorem valueFits_of {inner : ArrayShape} (hinner : ∀ es : List Element,
    r.Has (Element.nodes es) (Element.returns es) → inner.admits s' es = inner.admits s es)
    {e : Expr} (he : r.Has e.nodes e.returns) : s'.valueFits inner e = s.valueFits inner e := by
  cases e with
  | array n es =>
    simp only [Expr.nodes, Expr.returns, Region.has_cons] at he
    exact hinner es he.2
  | _ => exact h.fits_array hs (Region.id_of_node (Expr.node_of_has he)) inner

theorem admits_shape_of {inner : ArrayShape} (hinner : ∀ es : List Element,
    r.Has (Element.nodes es) (Element.returns es) → inner.admits s' es = inner.admits s es)
    {e : Element} (he : r.Has (Element.nodes [e]) (Element.returns [e])) :
    (Member.shape inner).admits s' e = (Member.shape inner).admits s e := by
  cases e with
  | item e =>
    simp only [Element.nodes, Element.returns, Region.has_append] at he
    rw [Member.admits_shape, Member.admits_shape, h.valueFits_of hs hinner he.1]
  | _ => simp [Member.admits]

omit h hs in
theorem all_congr {es : List Element} (hes : r.Has (Element.nodes es) (Element.returns es))
    {f g : Element → Bool}
    (hfg : ∀ e, r.Has (Element.nodes [e]) (Element.returns [e]) → f e = g e) :
    es.all f = es.all g := by
  rw [Bool.eq_iff_iff, List.all_eq_true, List.all_eq_true]
  exact forall₂_congr fun e he => by rw [hfg e (Element.has_list.1 hes e he)]

end Store.SameWithin

section

variable {env : CheckEnv} {r : Region} {s s' : Store}

mutual

theorem ArrayShape.admits_same (h : s.SameWithin env r s') (hs : s.Closed) :
    (x : ArrayShape) → (es : List Element) → r.Has (Element.nodes es) (Element.returns es) →
      x.admits s' es = x.admits s es
  | ⟨contents, nonEmpty, _⟩, es, hes => by
    rw [ArrayShape.admits, ArrayShape.admits]
    exact Contents.admits_same h hs contents nonEmpty es hes

theorem Contents.admits_same (h : s.SameWithin env r s') (hs : s.Closed) : (x : Contents) →
    (nonEmpty : Bool) → (es : List Element) → r.Has (Element.nodes es) (Element.returns es) →
      x.admits s' nonEmpty es = x.admits s nonEmpty es
  | .simple name, nonEmpty, es, hes => by
    rw [Contents.admits, Contents.admits,
      Store.SameWithin.all_congr hes fun e he => h.elementHasType he name]
  | .tuple members, nonEmpty, es, hes => by
    rw [Contents.admits, Contents.admits, Member.admitsList_same h hs members es hes]
  | .nested inner, nonEmpty, es, hes => by
    rw [Contents.admits_nested, Contents.admits_nested, Store.SameWithin.all_congr hes fun e he =>
      h.admits_shape_of hs (ArrayShape.admits_same h hs inner) he]

theorem Member.admits_same (h : s.SameWithin env r s') (hs : s.Closed) : (x : Member) →
    (e : Element) → r.Has (Element.nodes [e]) (Element.returns [e]) → x.admits s' e = x.admits s e
  | .elem name, e, he => by
    rw [Member.admits, Member.admits, h.elementHasType he]
  | .shape inner, e, he => h.admits_shape_of hs (ArrayShape.admits_same h hs inner) he

theorem Member.admitsList_same (h : s.SameWithin env r s') (hs : s.Closed) : (xs : List Member) →
    (es : List Element) → r.Has (Element.nodes es) (Element.returns es) →
      Member.admitsList s' xs es = Member.admitsList s xs es
  | x :: xs, e :: es, hes => by
    have hes := List.forall_mem_cons.1 (Element.has_list.1 hes)
    rw [Member.admitsList, Member.admitsList, Member.admits_same h hs x e hes.1,
      Member.admitsList_same h hs xs es (Element.has_list.2 hes.2)]
  | [], _, _ => rfl
  | _ :: _, [], _ => rfl

end

theorem Store.SameWithin.valueFits (h : s.SameWithin env r s') (hs : s.Closed) (x : ArrayShape)
    {e : Expr} (he : r.Has e.nodes e.returns) : s'.valueFits x e = s.valueFits x e :=
  h.valueFits_of hs (ArrayShape.admits_same h hs x) he

end

/-! Rules that look at nothing out of range. -/

namespace Check

/-- What comes next begins with the making of a function shape. It depends on the store in the place
that the shape is given, which may be the end of the arena. -/
inductive Makes : (Store → List FuncShapeId → Check α) → Prop
  | function (f : FuncId) (k : FuncShapeId × Bool → Check α) :
    Makes fun store _ => write (.function f) (k (store.functionPlace f))
  | native (name : String) (result : Tag) (k : FuncShapeId → Check α) :
    Makes fun store _ => write (.native name result) (k (store.nativePlace name))

/-- Wherever the rule looks at the store, it would go on in the same way if it were shown any other
store that holds the same within the region. -/
def LooksWithin (env : CheckEnv) (r : Region) : Check α → CheckState → Prop
  | done _, _ => True
  | read next, s =>
    ((∀ store', s.store.SameWithin env r store' →
        next store' s.frames = next s.store s.frames) ∨ Makes next) ∧
      (next s.store s.frames).LooksWithin env r s
  | write w next, s => next.LooksWithin env r (w.apply s)

variable {env : CheckEnv} {r : Region} {s : CheckState}

theorem Makes.bind {next : Store → List FuncShapeId → Check α} (h : Makes next)
    (f : α → Check β) : Makes fun store frames => (next store frames).bind f := by
  cases h with
  | function g k => exact .function g fun place => (k place).bind f
  | native name result k => exact .native name result fun place => (k place).bind f

theorem looksWithin_bind {m : Check α} {f : α → Check β} (hm : m.LooksWithin env r s)
    {G : CheckState → Write → Prop} (hf : m.Ensures G (fun a s => (f a).LooksWithin env r s) s) :
    (m >>= f).LooksWithin env r s := by
  change (m.bind f).LooksWithin env r s
  induction m generalizing s with
  | done a => exact hf
  | read next ih =>
    refine ⟨hm.1.imp (fun h store' hsame => ?_) (fun h => h.bind f), ih _ _ hm.2 hf⟩
    exact congrArg (·.bind f) (h store' hsame)
  | write w next ih => exact ih hm hf.2

end Check
end TagCheck
