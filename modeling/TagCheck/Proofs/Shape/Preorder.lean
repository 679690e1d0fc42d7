import TagCheck.Proofs.Shape.ArrayFits
import TagCheck.Proofs.Shape.Compatibility

/-! Shapes are ordered by what they may stand for: every shape stands for itself, and what stands
for a shape stands for all that this shape stands for. The law is shown for tags, element types,
arrays and, by the greatest compatibility, for functions that refer to each other in circles. -/
namespace TagCheck

theorem Tag.fits_trans {s t u : Tag} (hst : s.fits t = true) (htu : t.fits u = true) :
    s.fits u = true := by
  obtain ⟨hs, -, hst⟩ := fits_iff.1 hst
  obtain ⟨-, hu, htu⟩ := fits_iff.1 htu
  refine fits_iff.2 ⟨hs, hu, ?_⟩
  rcases htu with rfl | rfl | ⟨rfl, rfl | rfl⟩ | ⟨rfl, rfl⟩ | ⟨rfl, rfl⟩
  · exact hst
  · simp
  · simp_all
  · have hs : s = .finite ∨ s = .int := by simpa using hst
    simp [hs.symm]
  · simp_all
  · simp_all

theorem ElemName.fits_trans {a b c : ElemName} (hab : a.fits b = true) (hbc : b.fits c = true) :
    a.fits c = true := by
  cases c with
  | builtin u =>
    cases b with
    | builtin t =>
      cases a with
      | builtin s => simpa using Tag.fits_trans (by simpa using hab) (by simpa using hbc)
      | named n =>
        obtain rfl : t = .any := by simpa using hab
        simpa [Tag.any_fits] using hbc
    | named n =>
      obtain rfl : u = .any := by simpa using hbc
      cases a with
      | builtin s => simp at hab
      | named m => rfl
  | named n =>
    cases b with
    | builtin t => simp at hbc
    | named m =>
      obtain rfl : m = n := by simpa using hbc
      exact hab

mutual

theorem ArrayShape.fits_trans : (s : ArrayShape) → {t u : ArrayShape} → s.fits t = true →
    t.fits u = true → s.fits u = true
  | ⟨c, n, d⟩, t, u, hst, htu => by
    rcases ArrayShape.fits_iff.1 hst with rfl | hst
    · exact htu
    rcases ArrayShape.fits_iff.1 htu with rfl | htu
    · exact ArrayShape.fits_iff.2 (Or.inr hst)
    · exact ArrayShape.fits_iff.2 (Or.inr (Contents.Fits.trans c hst htu))

theorem Contents.Fits.trans : (c : Contents) → {d e : Contents} → c.Fits d → d.Fits e → c.Fits e
  | c, _, _, _, .any _ => .any c
  | c, _, .simple b, .any _, .simple h => by
    -- Only an array of whatever takes all that an array of whatever may hold.
    obtain rfl : b = .builtin .any := by
      cases b with
      | builtin t => simpa [Tag.any_fits] using h
      | named n => simp at h
    exact .any c
  | _, _, _, .simple h, .simple h' => .simple (ElemName.fits_trans h h')
  | .tuple ms, _, _, .tuple h, .tuple h' => .tuple (Member.forall_fits_trans ms h h')
  | .nested s, _, _, .nested h, .nested h' => .nested (ArrayShape.fits_trans s h h')

theorem Member.Fits.trans : (m : Member) → {n o : Member} → m.Fits n → n.Fits o → m.Fits o
  | _, _, _, .elem h, .elem h' => .elem (ElemName.fits_trans h h')
  | .shape s, _, _, .shape h, .shape h' => .shape (ArrayShape.fits_trans s h h')

theorem Member.forall_fits_trans : (ms : List Member) → {ns os : List Member} →
    List.Forall₂ Member.Fits ms ns → List.Forall₂ Member.Fits ns os →
    List.Forall₂ Member.Fits ms os
  | [], _, _, .nil, .nil => .nil
  | m :: ms, _, _, .cons h hs, .cons h' hs' =>
    .cons (Member.Fits.trans m h h') (Member.forall_fits_trans ms hs hs')

end

theorem forall₂_comp {α β γ : Type} {R : α → β → Prop} {S : β → γ → Prop} {T : α → γ → Prop}
    (hRS : ∀ a b c, R a b → S b c → T a c) {as : List α} {bs : List β} {cs : List γ}
    (hab : List.Forall₂ R as bs) (hbc : List.Forall₂ S bs cs) : List.Forall₂ T as cs := by
  induction hab generalizing cs with
  | nil =>
    cases hbc
    exact .nil
  | cons h _ ih =>
    cases hbc with
    | cons h' hbc => exact .cons (hRS _ _ _ h h') (ih hbc)

/-- Parameters compose the other way round, as each is compared the other way round. -/
theorem FuncShape.Stands.comp {R : Option Shape → Option Shape → Prop} {f g k : FuncShape}
    (hfg : f.Stands R g) (hgk : g.Stands R k) : f.Stands (Relation.Comp R R) k where
  params := forall₂_comp (fun _ q _ hpq hqr =>
    ⟨Tag.fits_trans hqr.1 hpq.1, q.shape, hqr.2, hpq.2⟩) hfg.params hgk.params
  result := ⟨Tag.fits_trans hfg.result.1 hgk.result.1, g.ret.shape, hfg.result.2, hgk.result.2⟩

namespace Arena

theorem fits_refl (a : Arena) (x : Option Shape) : a.fits x x = true := by
  refine fits_eq_true_iff.2 ⟨∅, by simp [Closed], ?_⟩
  rcases x with _ | s | s
  · trivial
  · exact Or.inl rfl
  · exact ArrayShape.fits_iff.2 (Or.inl rfl)

/-- Going through a shape in between is a compatibility, so it leads nowhere else. -/
theorem isCompatibility_comp (a : Arena) : a.IsCompatibility
    (Relation.Comp (fun x y => a.fits x y = true) (fun x y => a.fits x y = true)) := by
  have hfits := isCompatibility_fits a
  have hmono : ∀ x y, a.fits x y = true →
      Relation.Comp (fun x y => a.fits x y = true) (fun x y => a.fits x y = true) x y :=
    fun x y h => ⟨y, h, a.fits_refl y⟩
  constructor
  case absent => exact hmono _ _ hfits.absent
  case not_absent_left =>
    rintro t ⟨_ | y, hxy, hyz⟩
    · exact hfits.not_absent_left t hyz
    · exact hfits.not_absent_left y hxy
  case not_absent_right =>
    rintro s ⟨_ | y, hxy, hyz⟩
    · exact hfits.not_absent_right s hxy
    · exact hfits.not_absent_right y hyz
  case array =>
    refine fun s u => ⟨?_, fun h => hmono _ _ ((hfits.array s u).2 h)⟩
    rintro ⟨_ | t | t, hst, htu⟩
    · exact absurd hst (hfits.not_absent_right _)
    · exact absurd hst (hfits.not_array_func s t)
    · exact ArrayShape.fits_trans s ((hfits.array s t).1 hst) ((hfits.array t u).1 htu)
  case not_array_func =>
    rintro s u ⟨_ | t | t, hst, htu⟩
    · exact hfits.not_absent_right _ hst
    · exact hfits.not_array_func s t hst
    · exact hfits.not_array_func t u htu
  case not_func_array =>
    rintro s u ⟨_ | t | t, hst, htu⟩
    · exact hfits.not_absent_right _ hst
    · exact hfits.not_func_array t u htu
    · exact hfits.not_func_array s t hst
  case func =>
    rintro s u ⟨_ | t | t, hst, htu⟩
    · exact absurd hst (hfits.not_absent_right _)
    · rcases hfits.func s t hst with rfl | ⟨f, g, hf, hg, hfg⟩
      · refine (hfits.func s u htu).imp_right ?_
        rintro ⟨f, g, hf, hg, hfg⟩
        exact ⟨f, g, hf, hg, hfg.mono hmono⟩
      rcases hfits.func t u htu with rfl | ⟨g', k, hg', hk, hgk⟩
      · exact Or.inr ⟨f, g, hf, hg, hfg.mono hmono⟩
      · obtain rfl : g = g' := Option.some.inj (hg.symm.trans hg')
        exact Or.inr ⟨f, k, hf, hk, hfg.comp hgk⟩
    · exact absurd hst (hfits.not_func_array s t)

/-- Whatever the functions of the arena take and return, standing for each other is a preorder on
the shapes, absent ones included. -/
theorem fits_isPreorder (a : Arena) : IsPreorder (Option Shape) fun x y => a.fits x y = true where
  refl x := a.fits_refl x
  trans _ y _ hxy hyz := (isCompatibility_comp a).fits ⟨y, hxy, hyz⟩

end Arena
end TagCheck
