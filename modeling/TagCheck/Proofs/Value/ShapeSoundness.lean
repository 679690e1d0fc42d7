import TagCheck.Proofs.Shape.ArrayFits
import TagCheck.Proofs.Shape.Compatibility
import TagCheck.Value.Validate

/-! What the comparison of array shapes promises of values: a value that is accepted under a shape
is accepted under every shape that the first may stand for, as far as that shape neither asks for
elements to be there nor for integers of the other kind. -/
namespace TagCheck

namespace Value

theorem isFinite_of_isSafeInteger {v : Value} (h : v.isSafeInteger = true) : v.isFinite = true := by
  cases v with
  | number x =>
    simp only [isSafeInteger, Double.isSafeInteger, Double.isIntegral, Bool.and_eq_true] at h
    exact h.1.1
  | _ => simp [isSafeInteger] at h

theorem hasTag_any (v : Value) : v.hasTag .any = true := by
  cases v <;> rfl

theorem hasTag_finite (v : Value) : v.hasTag .finite = v.isFinite := by
  cases v <;> rfl

theorem hasTag_int (v : Value) : v.hasTag .int = v.isSafeInteger := by
  cases v <;> rfl

theorem hasTag_number_of_isFinite {v : Value} (h : v.isFinite = true) :
    v.hasTag .number = true := by
  cases v with
  | number x => rfl
  | _ => simp [isFinite] at h

/-- Values of a tag are of all tags that it fits, but for `bint`, whose values are never `int`. -/
theorem hasTag_of_fits {v : Value} {s t : Tag} (hst : s.fits t = true) (ht : t ≠ .bint)
    (h : v.hasTag s = true) : v.hasTag t = true := by
  obtain ⟨-, -, hst⟩ := Tag.fits_iff.1 hst
  rcases hst with rfl | rfl | ⟨rfl, rfl | rfl⟩ | ⟨rfl, rfl⟩ | ⟨rfl, rfl⟩
  · exact h
  · exact hasTag_any v
  · rw [hasTag_int] at h
    exact hasTag_number_of_isFinite (isFinite_of_isSafeInteger h)
  · rw [hasTag_finite] at h
    exact hasTag_number_of_isFinite h
  · rw [hasTag_int] at h
    rw [hasTag_finite]
    exact isFinite_of_isSafeInteger h
  · exact absurd rfl ht

end Value

namespace Validators

theorem hasType_of_fits {vs : Validators} {v : Value} {a b : ElemName} (hab : a.fits b = true)
    (hb : b ≠ .builtin .bint) (h : vs.hasType v a = .ok true) : vs.hasType v b = .ok true := by
  cases b with
  | builtin t =>
    cases a with
    | builtin s =>
      have ht : t ≠ .bint := fun ht => hb (by rw [ht])
      have hv : v.hasTag s = true := by simpa [hasType] using h
      simp [hasType, Value.hasTag_of_fits (by simpa using hab) ht hv]
    | named n =>
      obtain rfl : t = .any := by simpa using hab
      simp [hasType, Value.hasTag_any]
  | named n =>
    cases a with
    | builtin s => simp at hab
    | named m =>
      obtain rfl : m = n := by simpa using hab
      exact h

theorem allPass_eq_ok_true_iff {test : Value → Except ValidationError Bool} {vs : List Value} :
    allPass test vs = .ok true ↔ ∀ v ∈ vs, test v = .ok true := by
  induction vs with
  | nil => simp [allPass]
  | cons v vs ih =>
    rw [List.forall_mem_cons, ← ih]
    cases hv : test v with
    | error e => simp [allPass, hv, bind, Except.bind]
    | ok b => cases b <;> simp [allPass, hv, bind, Except.bind, pure, Except.pure]

theorem accepts_eq_ok_true_iff {vs : Validators} {s : ArrayShape} {v : Value} :
    vs.accepts s v = .ok true ↔ ∃ items, v = .array items ∧
      (s.nonEmpty = true → items ≠ []) ∧ vs.acceptsItems s.contents items = .ok true := by
  obtain ⟨c, n, d⟩ := s
  cases v with
  | array items => cases n <;> cases items <;> simp [accepts]
  | _ => simp [accepts]

theorem acceptsMembers_eq_ok_true_iff {vs : Validators} {ms : List Member} {items : List Value}
    (hlen : items.length = ms.length) : vs.acceptsMembers ms items = .ok true ↔
      List.Forall₂ (fun m v => vs.acceptsMember m v = .ok true) ms items := by
  induction ms generalizing items with
  | nil =>
    obtain rfl : items = [] := List.length_eq_zero_iff.1 hlen
    simp [acceptsMembers]
  | cons m ms ih =>
    cases items with
    | nil => simp at hlen
    | cons v items =>
      rw [List.forall₂_cons, ← ih (by simpa using hlen)]
      cases hv : vs.acceptsMember m v with
      | error e => simp [acceptsMembers, hv, bind, Except.bind]
      | ok b => cases b <;> simp [acceptsMembers, hv, bind, Except.bind, pure, Except.pure]

theorem acceptsItems_tuple_eq_ok_true_iff {vs : Validators} {ms : List Member}
    {items : List Value} : vs.acceptsItems (.tuple ms) items = .ok true ↔
      List.Forall₂ (fun m v => vs.acceptsMember m v = .ok true) ms items := by
  by_cases hlen : items.length = ms.length
  · simp [acceptsItems, hlen, acceptsMembers_eq_ok_true_iff hlen]
  · simp only [acceptsItems, if_neg hlen]
    refine ⟨fun h => absurd h (by simp), fun h => absurd h.length_eq.symm hlen⟩

mutual

theorem accepts_of_shape_fits {vs : Validators} : (s : ArrayShape) → {t : ArrayShape} →
    {v : Value} → s.fits t = true → true ∉ t.markers → .builtin .bint ∉ t.names →
    vs.accepts s v = .ok true → vs.accepts t v = .ok true
  | ⟨c, n, d⟩, ⟨c', n', d'⟩, v, hst, hmark, hbint, h => by
    rcases ArrayShape.fits_iff.1 hst with heq | hcc
    · rw [← heq]
      exact h
    obtain ⟨items, rfl, -, hitems⟩ := accepts_eq_ok_true_iff.1 h
    simp only [ArrayShape.markers, List.mem_cons, not_or] at hmark
    refine accepts_eq_ok_true_iff.2 ⟨items, rfl, fun hn => absurd hn.symm hmark.1, ?_⟩
    rw [ArrayShape.names] at hbint
    exact acceptsItems_of_contents_fit c hcc hmark.2 hbint hitems

theorem acceptsItems_of_contents_fit {vs : Validators} : (c : Contents) → {d : Contents} →
    {items : List Value} → c.Fits d → true ∉ d.markers → .builtin .bint ∉ d.names →
    vs.acceptsItems c items = .ok true → vs.acceptsItems d items = .ok true
  | _, _, items, .any _, _, _, _ => by
    rw [acceptsItems, allPass_eq_ok_true_iff]
    intro v _
    simp [hasType, Value.hasTag_any]
  | .simple a, .simple b, items, .simple hab, _, hbint, h => by
    rw [acceptsItems, allPass_eq_ok_true_iff] at h ⊢
    have hb : b ≠ .builtin .bint := by simpa [Contents.names, eq_comm] using hbint
    exact fun v hv => hasType_of_fits hab hb (h v hv)
  | .tuple ms, .tuple ns, items, .tuple hmn, hmark, hbint, h => by
    rw [acceptsItems_tuple_eq_ok_true_iff] at h ⊢
    exact accepts_of_members_fit ms hmn (by simpa [Contents.markers] using hmark)
      (by simpa [Contents.names] using hbint) h
  | .nested s, .nested t, items, .nested hst, hmark, hbint, h => by
    rw [acceptsItems, allPass_eq_ok_true_iff] at h ⊢
    intro v hv
    exact accepts_of_shape_fits s hst (by simpa [Contents.markers] using hmark)
      (by simpa [Contents.names] using hbint) (h v hv)

theorem acceptsMember_of_fits {vs : Validators} : (m : Member) → {n : Member} → {v : Value} →
    m.Fits n → true ∉ n.markers → .builtin .bint ∉ n.names →
    vs.acceptsMember m v = .ok true → vs.acceptsMember n v = .ok true
  | .elem a, .elem b, v, .elem hab, _, hbint, h => by
    have hb : b ≠ .builtin .bint := by simpa [Member.names, eq_comm] using hbint
    rw [acceptsMember] at h ⊢
    exact hasType_of_fits hab hb h
  | .shape s, .shape t, v, .shape hst, hmark, hbint, h => by
    rw [acceptsMember] at h ⊢
    exact accepts_of_shape_fits s hst (by simpa [Member.markers] using hmark)
      (by simpa [Member.names] using hbint) h

theorem accepts_of_members_fit {vs : Validators} : (ms : List Member) → {ns : List Member} →
    {items : List Value} → List.Forall₂ Member.Fits ms ns → true ∉ Member.markersList ns →
    .builtin .bint ∉ Member.namesList ns →
    List.Forall₂ (fun m v => vs.acceptsMember m v = .ok true) ms items →
    List.Forall₂ (fun n v => vs.acceptsMember n v = .ok true) ns items
  | [], _, _, .nil, _, _, .nil => .nil
  | m :: ms, n :: ns, _, .cons hmn hrest, hmark, hbint, .cons hv hvs => by
    simp only [Member.markersList, Member.namesList, List.mem_append, not_or] at hmark hbint
    exact .cons (acceptsMember_of_fits m hmn hmark.1 hbint.1 hv)
      (accepts_of_members_fit ms hrest hmark.2 hbint.2 hvs)

end

/-- Array shapes may be exchanged for those they fit at the value level, too: no value is lost and
no registered name is missed, unless the other shape asks for elements or for `bint`. -/
theorem accepts_of_fits (vs : Validators) (a : Arena) (s t : ArrayShape) (v : Value)
    (hmark : true ∉ t.markers) (hbint : .builtin .bint ∉ t.names)
    (hst : a.fits (some (.array s)) (some (.array t)) = true) (h : vs.accepts s v = .ok true) :
    vs.accepts t v = .ok true :=
  accepts_of_shape_fits s ((a.isCompatibility_fits.array s t).1 hst) hmark hbint h

/-- Pairs of an `int` and some points are pairs of a `number` and points. -/
theorem accepts_pairs_of_fits :
    let vs : Validators := ⟨[("Point", Value.truthy)]⟩
    let s : ArrayShape := ⟨.nested ⟨.tuple [.elem (.builtin .int),
      .shape ⟨.simple (.named "Point"), true, "Point[+]"⟩], false, "<int,Point[+]>"⟩, true,
      "<int,Point[+]>[+]"⟩
    let t : ArrayShape := ⟨.nested ⟨.tuple [.elem (.builtin .number),
      .shape ⟨.simple (.named "Point"), false, "Point[]"⟩], false, "<number,Point[]>"⟩, false,
      "<number,Point[]>[]"⟩
    let v : Value := .array [.array [.number (.ofInt 7), .array [.str "p"]]]
    true ∉ t.markers ∧ .builtin .bint ∉ t.names ∧
      ({} : Arena).fits (some (.array s)) (some (.array t)) = true ∧
      vs.accepts s v = .ok true ∧ vs.accepts t v = .ok true := by
  intro vs s t v
  have hmark : true ∉ t.markers := by decide
  have hbint : .builtin .bint ∉ t.names := by decide
  have hst : ({} : Arena).fits (some (.array s)) (some (.array t)) = true :=
    ((Arena.isCompatibility_fits _).array s t).2 (by decide +kernel)
  have hs : vs.accepts s v = .ok true := by decide +kernel
  exact ⟨hmark, hbint, hst, hs, accepts_of_fits vs {} s t v hmark hbint hst hs⟩

end Validators
end TagCheck
