import TagCheck.Check.Visit

/-! Programs without calls and default values, and what a pass over them visits: no calls and
default values either, and the parameters of a function only after their identifiers. -/
namespace TagCheck

mutual

/-- There is no call and no default value in it. -/
def Expr.isPlain : Expr → Bool
  | .number _ _ | .bigint _ _ | .str _ _ | .bool _ _ | .null _ | .regex _ _ _ | .this _ => true
  | .ident _ => true
  | .template _ ⟨_, _, parts⟩ => Expr.arePlain parts
  | .tagged _ tag ⟨_, _, parts⟩ => tag.isPlain && Expr.arePlain parts
  | .array _ elements => Element.arePlain elements
  | .object _ props => Property.arePlain props
  | .function f => f.isPlain
  | .unary _ _ e | .update _ _ _ e => e.isPlain
  | .binary _ _ l r | .logical _ _ l r => l.isPlain && r.isPlain
  | .conditional _ t c a => t.isPlain && c.isPlain && a.isPlain
  | .assign _ target value => target.isPlain && value.isPlain
  | .assignMember _ target value => target.isPlain && value.isPlain
  | .sequence _ parts => Expr.arePlain parts
  | .call _ _ _ => false
  | .new _ callee args => callee.isPlain && Element.arePlain args
  | .member _ object key => object.isPlain && key.isPlain

def Expr.arePlain : List Expr → Bool
  | [] => true
  | e :: es => e.isPlain && Expr.arePlain es

def Expr.isPlainOption : Option Expr → Bool
  | none => true
  | some e => e.isPlain

def Key.isPlain : Key → Bool
  | .name _ => true
  | .computed e => e.isPlain

def Element.arePlain : List Element → Bool
  | [] => true
  | .hole :: es => Element.arePlain es
  | .item e :: es | .spread _ e :: es => e.isPlain && Element.arePlain es

def Property.arePlain : List Property → Bool
  | [] => true
  | .keyValue k v _ :: ps => k.isPlain && v.isPlain && Property.arePlain ps
  | .method k f :: ps => k.isPlain && f.isPlain && Property.arePlain ps
  | .spread _ e :: ps => e.isPlain && Property.arePlain ps

def Pattern.isPlain : Pattern → Bool
  | .ident _ => true
  | .array _ elements => Pattern.arePlainElements elements
  | .object _ props => PatternProp.arePlain props
  | .withDefault _ _ _ => false
  | .rest _ argument => argument.isPlain

def Pattern.arePlainElements : List (Option Pattern) → Bool
  | [] => true
  | none :: ps => Pattern.arePlainElements ps
  | some p :: ps => p.isPlain && Pattern.arePlainElements ps

def Pattern.arePlain : List Pattern → Bool
  | [] => true
  | p :: ps => p.isPlain && Pattern.arePlain ps

def PatternProp.arePlain : List PatternProp → Bool
  | [] => true
  | .prop _ p :: ps | .rest p :: ps => p.isPlain && PatternProp.arePlain ps

def Func.isPlain : Func → Bool
  | ⟨_, _, _, _, params, body⟩ => Pattern.arePlain params && body.isPlain

def Body.isPlain : Body → Bool
  | .block ⟨_, stmts⟩ => Stmt.arePlain stmts
  | .expr e => e.isPlain

def Stmt.isPlain : Stmt → Bool
  | .declare _ _ ds => Declarator.arePlain ds
  | .function f => f.isPlain
  | .return_ _ none => true
  | .return_ _ (some e) => e.isPlain
  | .if_ _ t c none => t.isPlain && c.isPlain
  | .if_ _ t c (some a) => t.isPlain && c.isPlain && a.isPlain
  | .while_ _ t b => t.isPlain && b.isPlain
  | .doWhile _ b t => b.isPlain && t.isPlain
  | .for_ _ init test update body =>
    init.isPlain && Expr.isPlainOption test && Expr.isPlainOption update && body.isPlain
  | .block ⟨_, stmts⟩ => Stmt.arePlain stmts
  | .expr e => e.isPlain
  | .break_ _ | .continue_ _ | .empty _ => true

def Stmt.arePlain : List Stmt → Bool
  | [] => true
  | s :: ss => s.isPlain && Stmt.arePlain ss

def Declarator.arePlain : List Declarator → Bool
  | [] => true
  | ⟨_, target, some e⟩ :: ds => target.isPlain && e.isPlain && Declarator.arePlain ds
  | ⟨_, target, none⟩ :: ds => target.isPlain && Declarator.arePlain ds

def ForInit.isPlain : ForInit → Bool
  | .absent => true
  | .declare _ ds => Declarator.arePlain ds
  | .expr e => e.isPlain

end

/-- There is no call expression and no pattern with a default value in the program. -/
def Program.isPlain (p : Program) : Bool := Stmt.arePlain p.body

namespace Visit

/-- What a visit needs of those before it if the program is plain: parameters are identifiers that
have been visited. -/
def MayFollow (seen : List Visit) : Visit → Prop
  | .call .. | .assignDefault .. => False
  | .infer _ t => t ≠ .unknown
  | .parameters params => ∀ p ∈ params, ∀ i, p.simpleName? = some i →
      p = .ident i ∧ .identifier i .plain ∈ seen
  | _ => True

def Ordered (seen : List Visit) : List Visit → Prop
  | [] => True
  | v :: vs => v.MayFollow seen ∧ Ordered (v :: seen) vs

@[simp] theorem ordered_nil {seen : List Visit} : Ordered seen [] := trivial

@[simp] theorem ordered_cons {seen vs : List Visit} {v : Visit} :
    Ordered seen (v :: vs) ↔ v.MayFollow seen ∧ Ordered (v :: seen) vs := Iff.rfl

@[simp] theorem ordered_append {seen l l' : List Visit} :
    Ordered seen (l ++ l') ↔ Ordered seen l ∧ Ordered (l.reverse ++ seen) l' := by
  induction l generalizing seen with
  | nil => simp
  | cons v l ih => simp [ih, and_assoc]

/-- Visits that need nothing of those before them. -/
theorem ordered_of_forall {seen l : List Visit} (h : ∀ v ∈ l, ∀ seen, v.MayFollow seen) :
    Ordered seen l := by
  induction l generalizing seen with
  | nil => trivial
  | cons v l ih =>
    exact ⟨h v (List.mem_cons_self ..) seen, ih fun w hw => h w (List.mem_cons_of_mem v hw)⟩

theorem mayFollow_ofTagged (n : Node) (quasi : Template) (outer : Option NodeId) (tag : Expr) :
    ∀ v ∈ ofTagged n quasi outer tag, ∀ seen, v.MayFollow seen := by
  intro v hv seen
  unfold ofTagged at hv
  split at hv
  · split at hv
    · simp at hv
    · split at hv <;> simp_all [MayFollow]
    · split at hv <;> simp_all [MayFollow]
    · simp_all [MayFollow]
  · split at hv <;> simp at hv
    · rcases hv with rfl | rfl <;> trivial
    · rcases hv with rfl | rfl <;> trivial
  · simp at hv

theorem mayFollow_ofNumber (seen : List Visit) (n : Node) (x : Double) :
    (ofNumber n x).MayFollow seen := by
  change (if x.isSafeInteger then Tag.int else if x.isFinite then .finite else .number) ≠ .unknown
  split
  · decide
  · split <;> decide

/-- What is plain is visited in order, whatever has been visited before. -/
def InTurn (isPlain : Bool) (vs : List Visit) : Prop := isPlain = true → ∀ seen, Ordered seen vs

namespace InTurn

variable {a b : Bool} {l l' : List Visit} {v : Visit}

theorem nil : InTurn a [] := fun _ _ => trivial

theorem append (h : InTurn a l) (h' : InTurn b l') : InTurn (a && b) (l ++ l') := by
  intro hplain seen
  rw [Bool.and_eq_true] at hplain
  exact ordered_append.2 ⟨h hplain.1 seen, h' hplain.2 _⟩

theorem visits (h : InTurn a l) (hl : ∀ v ∈ l', ∀ seen, v.MayFollow seen) : InTurn a (l ++ l') :=
  fun hplain seen => ordered_append.2 ⟨h hplain seen, ordered_of_forall hl⟩

theorem visit (h : InTurn a l) (hv : ∀ seen, v.MayFollow seen) : InTurn a (l ++ [v]) :=
  h.visits (List.forall_mem_singleton.2 hv)

end InTurn

end Visit

/-- Each parameter that is an identifier is visited as such. -/
theorem Pattern.mayFollow_parameters {params : List Pattern} (h : Pattern.arePlain params = true)
    {seen : List Visit} (hseen : ∀ v ∈ Pattern.visitsList params, v ∈ seen) :
    (Visit.parameters params).MayFollow seen := by
  induction params with
  | nil => simp [Visit.MayFollow]
  | cons p ps ih =>
    simp only [Pattern.arePlain, Bool.and_eq_true] at h
    simp only [Pattern.visitsList, List.mem_append] at hseen
    refine List.forall_mem_cons.2 ⟨fun i hi => ?_, ih h.2 fun v hv => hseen v (Or.inr hv)⟩
    cases p with
    | ident j =>
      obtain rfl : j = i := by simpa [simpleName?] using hi
      exact ⟨rfl, hseen _ (Or.inl (by simp [Pattern.visits]))⟩
    | withDefault n target value => simp [Pattern.isPlain] at h
    | _ => simp [simpleName?] at hi

mutual

theorem Expr.ordered_visits : (e : Expr) → (place : Place) →
    Visit.InTurn e.isPlain (e.visits place)
  | .number n x, _ => .visit .nil fun seen => Visit.mayFollow_ofNumber seen n x
  | .bigint .., _ | .str .., _ | .bool .., _ | .null _, _ | .regex .., _ =>
    .visit .nil (by rintro _ ⟨⟩)
  | .this _, _ => .nil
  | .ident _, _ => .visit .nil fun _ => trivial
  | .template _ ⟨_, _, parts⟩, _ => .visit (Expr.ordered_visitsList parts) (by rintro _ ⟨⟩)
  | .tagged n tag ⟨pos, quasis, parts⟩, place => by
    have hrule := Visit.mayFollow_ofTagged n ⟨pos, quasis, parts⟩ place.outer tag
    by_cases htag : ∃ i, tag = .ident i
    · obtain ⟨i, rfl⟩ := htag
      rw [Expr.visits]
      exact .visits (.append (.visit .nil fun _ => trivial) (Expr.ordered_visitsList parts)) hrule
    · rw [Expr.visits]
      · exact .visits (.append (tag.ordered_visits _) (Expr.ordered_visitsList parts)) hrule
      · exact fun i hi => htag ⟨i, hi⟩
  | .array _ elements, _ => .visit (Element.ordered_visits elements _) fun _ => trivial
  | .object _ props, _ => .visit (Property.ordered_visits props) (by rintro _ ⟨⟩)
  | .function f, place => f.ordered_visits place.name
  | .unary _ _ e, _ | .update _ _ _ e, _ => .visit (e.ordered_visits {}) fun _ => trivial
  | .binary _ _ l r, _ => .visit (.append (l.ordered_visits {}) (r.ordered_visits {})) fun _ => trivial
  | .logical _ _ l r, _ =>
    .visits (.append (l.ordered_visits {}) (r.ordered_visits {})) (by simp [Visit.MayFollow])
  | .conditional _ t c a, _ =>
    .visits (.append (.append (t.ordered_visits {}) (c.ordered_visits {})) (a.ordered_visits {}))
      (by simp [Visit.MayFollow])
  | .assign _ target value, _ =>
    .visit (.append (target.ordered_visits _) (value.ordered_visits _)) fun _ => trivial
  | .assignMember _ target value, _ => .append (target.ordered_visits {}) (value.ordered_visits {})
  | .sequence _ parts, _ => .visits (Expr.ordered_visitsList parts) (by simp [Visit.MayFollow])
  | .call .., _ => fun h => by cases h
  | .new _ callee args, _ =>
    .visit (.append (callee.ordered_visits {}) (Element.ordered_visits args none)) (by rintro _ ⟨⟩)
  | .member _ object key, _ => .append (object.ordered_visits {}) key.ordered_visits

theorem Expr.ordered_visitsList : (es : List Expr) →
    Visit.InTurn (Expr.arePlain es) (Expr.visitsList es)
  | [] => .nil
  | e :: es => .append (e.ordered_visits {}) (Expr.ordered_visitsList es)

theorem Expr.ordered_visitsOption : (e? : Option Expr) →
    Visit.InTurn (Expr.isPlainOption e?) (Expr.visitsOption e?)
  | none => .nil
  | some e => e.ordered_visits {}

theorem Key.ordered_visits : (k : Key) → Visit.InTurn k.isPlain k.visits
  | .name _ => .nil
  | .computed e => e.ordered_visits {}

theorem Element.ordered_visits : (es : List Element) → (expected : Option Tag) →
    Visit.InTurn (Element.arePlain es) (Element.visits expected es)
  | [], _ => .nil
  | .hole :: es, expected => Element.ordered_visits es expected
  | .item e :: es, expected => .append (e.ordered_visits {}) (Element.ordered_visits es expected)
  | .spread _ e :: es, expected => .append (.visits (e.ordered_visits {})
      (by cases expected <;> simp [Visit.MayFollow])) (Element.ordered_visits es expected)

theorem Property.ordered_visits : (ps : List Property) →
    Visit.InTurn (Property.arePlain ps) (Property.visits ps)
  | [] => .nil
  | .keyValue k v _ :: ps =>
    .append (.append k.ordered_visits (v.ordered_visits _)) (Property.ordered_visits ps)
  | .method k f :: ps =>
    .append (.append k.ordered_visits (f.ordered_visits _)) (Property.ordered_visits ps)
  | .spread _ e :: ps =>
    .append (.visit (e.ordered_visits {}) fun _ => trivial) (Property.ordered_visits ps)

theorem Pattern.ordered_visits : (p : Pattern) → (role : Role) →
    Visit.InTurn p.isPlain (p.visits role)
  | .ident _, _ => .visit .nil fun _ => trivial
  | .array _ elements, _ => .visit (Pattern.ordered_visitsElements elements) (by rintro _ ⟨⟩)
  | .object _ props, _ => .visit (PatternProp.ordered_visits props) (by rintro _ ⟨⟩)
  | .withDefault .., _ => fun h => by cases h
  | .rest _ argument, _ => .visit (argument.ordered_visits .plain) fun _ => trivial

theorem Pattern.ordered_visitsElements : (ps : List (Option Pattern)) →
    Visit.InTurn (Pattern.arePlainElements ps) (Pattern.visitsElements ps)
  | [] => .nil
  | none :: ps => Pattern.ordered_visitsElements ps
  | some p :: ps => .append (p.ordered_visits .plain) (Pattern.ordered_visitsElements ps)

theorem Pattern.ordered_visitsList : (ps : List Pattern) →
    Visit.InTurn (Pattern.arePlain ps) (Pattern.visitsList ps)
  | [] => .nil
  | p :: ps => .append (p.ordered_visits .plain) (Pattern.ordered_visitsList ps)

theorem PatternProp.ordered_visits : (ps : List PatternProp) →
    Visit.InTurn (PatternProp.arePlain ps) (PatternProp.visits ps)
  | [] => .nil
  | .prop _ p :: ps | .rest p :: ps =>
    .append (p.ordered_visits .plain) (PatternProp.ordered_visits ps)

theorem Func.ordered_visits : (f : Func) → (place : Option String) →
    Visit.InTurn f.isPlain (f.visits place)
  | ⟨node, func, _, name, params, body⟩, place => by
    have hparams : Visit.InTurn (Pattern.arePlain params) ([.enterFunction node.id func] ++
        (name.map fun i => Visit.identifier i (.functionName node)).toList ++
          Pattern.visitsList params) :=
      .append (a := true) (.visits (.visit .nil fun _ => trivial) (by simp [Visit.MayFollow]))
        (Pattern.ordered_visitsList params)
    refine .visit (.append (fun h seen => ?_) body.ordered_visits) fun _ => trivial
    refine Visit.ordered_append.2 ⟨hparams h seen, ?_, trivial⟩
    exact Pattern.mayFollow_parameters h fun v hv => by simp [hv]

theorem Body.ordered_visits : (b : Body) → Visit.InTurn b.isPlain b.visits
  | .block ⟨_, stmts⟩ => Stmt.ordered_visitsList stmts
  | .expr e => e.ordered_visits _

theorem Stmt.ordered_visits : (s : Stmt) → Visit.InTurn s.isPlain s.visits
  | .declare _ _ ds => Declarator.ordered_visits ds
  | .function f => f.ordered_visits none
  | .return_ _ none => .visit .nil fun _ => trivial
  | .return_ _ (some e) => .visit (e.ordered_visits _) fun _ => trivial
  | .if_ _ t c none => .visit (.append (t.ordered_visits {}) c.ordered_visits) fun _ => trivial
  | .if_ _ t c (some a) =>
    .visit (.append (.append (t.ordered_visits {}) c.ordered_visits) a.ordered_visits) fun _ => trivial
  | .while_ _ t b => .visit (.append (t.ordered_visits {}) b.ordered_visits) fun _ => trivial
  | .doWhile _ b t => .visit (.append b.ordered_visits (t.ordered_visits {})) fun _ => trivial
  | .for_ _ init test update body =>
    .append (.append (.append init.ordered_visits (Expr.ordered_visitsOption test))
      (Expr.ordered_visitsOption update)) body.ordered_visits
  | .block ⟨_, stmts⟩ => Stmt.ordered_visitsList stmts
  | .expr e => e.ordered_visits {}
  | .break_ _ | .continue_ _ | .empty _ => .nil

theorem Stmt.ordered_visitsList : (ss : List Stmt) →
    Visit.InTurn (Stmt.arePlain ss) (Stmt.visitsList ss)
  | [] => .nil
  | s :: ss => .append s.ordered_visits (Stmt.ordered_visitsList ss)

theorem Declarator.ordered_visits : (ds : List Declarator) →
    Visit.InTurn (Declarator.arePlain ds) (Declarator.visits ds)
  | [] => .nil
  | ⟨_, target, some e⟩ :: ds =>
    .append (.visit (.append (target.ordered_visits .plain) (e.ordered_visits _)) fun _ => trivial)
      (Declarator.ordered_visits ds)
  | ⟨_, target, none⟩ :: ds =>
    .append (.visits (target.ordered_visits .plain) (by simp [Visit.MayFollow]))
      (Declarator.ordered_visits ds)

theorem ForInit.ordered_visits : (init : ForInit) → Visit.InTurn init.isPlain init.visits
  | .absent => .nil
  | .declare _ ds => Declarator.ordered_visits ds
  | .expr e => e.ordered_visits {}

end

end TagCheck
