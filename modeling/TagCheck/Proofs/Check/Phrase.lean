import Mathlib.Data.List.Perm.Basic
import TagCheck.Proofs.Check.Moments
import TagCheck.Proofs.Check.Ownership

/-! A part of a program in a pass without errors. What the pass leaves at the nodes of the part is
decided while the part is visited, so it can be read off from the rules for its parts. -/
namespace TagCheck

namespace Reporter

theorem errorCount_le_emit (r : Reporter) (severity : Severity) (code : Code) (message : String)
    (pos : Option Position) : r.errorCount ≤ (r.emit severity code message pos).errorCount := by
  unfold emit
  split
  · exact Nat.le_refl _
  · simp [errorCount, List.countP_append]

@[simp] theorem errorCount_emit_error (r : Reporter) (code : Code) (message : String)
    (pos : Option Position) : (r.emit .error code message pos).errorCount = r.errorCount + 1 := by
  simp [emit, errorCount, List.countP_append, Diagnostic.isError]

end Reporter

def CheckState.IsClean (s : CheckState) : Prop := s.reporter.errorCount = 0

theorem Write.isClean_of_apply {w : Write} {s : CheckState} (h : (w.apply s).IsClean) :
    s.IsClean := by
  cases w with
  | report severity code message pos =>
    have hle := s.reporter.errorCount_le_emit severity code message (some pos)
    exact Nat.eq_zero_of_le_zero (h ▸ hle)
  | _ => exact h

@[simp] theorem Write.not_isClean_error {code : Code} {message : String} {pos : Position}
    {s : CheckState} : ¬ ((Write.report .error code message pos).apply s).IsClean := by
  simp [CheckState.IsClean, Write.apply]

theorem Write.ty_cell_onStore_of_hasTypeThisPass {s : Store} {k : NodeId}
    (h : s.hasTypeThisPass (.node k) = true) (w : Write) :
    ((w.onStore s).cell (.node k)).ty = (s.cell (.node k)).ty := by
  rcases w.ty_cell_onStore s (.node k) with hty | ⟨ty, -, hopen, -⟩ | ⟨b, ty, -, ht, -⟩
  · exact hty
  · simp [h] at hopen
  · cases ht

/-- A node that was not typed in this pass takes the type. -/
theorem Write.ty_cell_onStore_type {s : Store} {k : NodeId} (hhas : s.Has (.node k))
    (hopen : s.hasTypeThisPass (.node k) = false) (ty : Ty) :
    (((Write.type (.node k) ty).onStore s).cell (.node k)).ty = some ⟨ty, s.pass⟩ := by
  simp [onStore, Store.markType, hopen, Store.ty_cell_forceType, hhas]

theorem Store.tag_eq_of_ty_cell {s : Store} {t : Target} {m : Marked Ty}
    (h : (s.cell t).ty = some m) : s.tag t = m.value.tag := by
  simp [Store.tag, Store.ty?, h]

theorem Store.tag_congr {s s' : Store} {t : Target} (h : s'.cell t = s.cell t) :
    s'.tag t = s.tag t := by
  simp [Store.tag, Store.ty?, h]

theorem Store.hasTypeThisPass_congr {s s' : Store} {t : Target}
    (h : (s'.cell t).ty = (s.cell t).ty) (hpass : s'.pass = s.pass) :
    s'.hasTypeThisPass t = s.hasTypeThisPass t := by
  simp [Store.hasTypeThisPass, h, hpass]

namespace Check

theorem isClean_of_run {m : Check α} {s : CheckState} (h : (m.run s).2.IsClean) : s.IsClean := by
  induction m generalizing s with
  | done a => exact h
  | read next ih => exact ih s.store s.frames h
  | write w next ih => exact Write.isClean_of_apply (ih h)

theorem isClean_of_foldl_visit {env : CheckEnv} {vs : List Visit} {s : CheckState}
    (h : (vs.foldl (visit env) s).IsClean) : s.IsClean := by
  induction vs generalizing s with
  | nil => exact h
  | cons v vs ih => exact isClean_of_run (ih h)

/-- A node that was typed in this pass keeps its type to the end of the pass. -/
theorem Linked.ty_cell_eq {s t : CheckState} {ms : List Moment} (h : Linked s ms t) {k : NodeId}
    (hthis : s.store.hasTypeThisPass (.node k) = true) :
    (t.store.cell (.node k)).ty = (s.store.cell (.node k)).ty := by
  have hlast := h.lasts (P := fun u => (u.store.cell (.node k)).ty = (s.store.cell (.node k)).ty ∧
    u.store.hasTypeThisPass (.node k) = true) ⟨rfl, hthis⟩ ?_
  · exact hlast.1
  · rintro m - ⟨hty, hthis⟩
    have hkeep := Write.ty_cell_onStore_of_hasTypeThisPass hthis m.write
    rw [Moment.after, Write.store_apply]
    exact ⟨hkeep.trans hty, by rw [Store.hasTypeThisPass_congr hkeep Write.pass_onStore, hthis]⟩

theorem ty_cell_run_of_hasTypeThisPass {m : Check α} {s : CheckState} {k : NodeId}
    (hthis : s.store.hasTypeThisPass (.node k) = true) :
    ((m.run s).2.store.cell (.node k)).ty = (s.store.cell (.node k)).ty :=
  (linked_trace (.infer k .any) m s).ty_cell_eq hthis

theorem run_bind (m : Check α) (g : α → Check β) (s : CheckState) :
    (m >>= g).run s = (g (m.run s).1).run (m.run s).2 := by
  change (m.bind g).run s = _
  induction m generalizing s with
  | done a => rfl
  | read next ih => exact ih s.store s.frames s
  | write w next ih => exact ih (w.apply s)

/-- A known type that a rule gives to a node first is the one that stays. -/
theorem ty_cell_run_markType_bind {k : NodeId} {ty : Ty} {s : CheckState}
    (hhas : s.store.Has (.node k)) (hopen : s.store.hasTypeThisPass (.node k) = false)
    (hty : ty.isKnown = true) (g : Unit → Check α) :
    (((markType (.node k) ty >>= g).run s).2.store.cell (.node k)).ty =
      some ⟨ty, s.store.pass⟩ := by
  let s' := (Write.type (.node k) ty).apply s
  have hthis : s'.store.hasTypeThisPass (.node k) = true := by
    rw [Write.store_apply]
    exact Write.hasTypeThisPass_onStore_type hhas hty
  have hcell : (s'.store.cell (.node k)).ty = some ⟨ty, s.store.pass⟩ := by
    rw [Write.store_apply]
    exact Write.ty_cell_onStore_type hhas hopen ty
  rw [run_bind, ← hcell]
  exact ty_cell_run_of_hasTypeThisPass hthis

end Check

/-- The visits `vs` of a part with the nodes `ns` come in a pass without errors so far, and leave at
these nodes what `f` has for them. -/
structure Phrase (env : CheckEnv) (f : Store) (ns : List SyntaxNode) (s : CheckState)
    (vs : List Visit) : Prop where
  nodup : (ns.map SyntaxNode.id).Nodup
  notImplied (e : Expr) : .expr e ∈ ns → ¬ env.Implies e.id
  has (e : Expr) : .expr e ∈ ns → s.store.Has (.node e.id)
  isOpen (e : Expr) : .expr e ∈ ns → s.store.hasTypeThisPass (.node e.id) = false
  pass : s.store.pass = f.pass
  clean : (vs.foldl (Check.visit env) s).IsClean
  final (e : Expr) : .expr e ∈ ns →
    (vs.foldl (Check.visit env) s).store.cell (.node e.id) = f.cell (.node e.id)

namespace Phrase

open Check

variable {env : CheckEnv} {f : Store} {ns : List SyntaxNode} {s : CheckState} {vs : List Visit}

theorem perm {ns' : List SyntaxNode} (h : Phrase env f ns s vs) (hns : ns.Perm ns') :
    Phrase env f ns' s vs where
  nodup := (hns.map _).nodup_iff.1 h.nodup
  notImplied e he := h.notImplied e (hns.mem_iff.2 he)
  has e he := h.has e (hns.mem_iff.2 he)
  isOpen e he := h.isOpen e (hns.mem_iff.2 he)
  pass := h.pass
  clean := h.clean
  final e he := h.final e (hns.mem_iff.2 he)

/-- Visits of other nodes leave a node alone. -/
theorem notMem_footprint {ns' : List SyntaxNode} {ws : List Visit} (hws : Tidy none ns' ws)
    {x : SyntaxNode} (hx : x.id ∉ ns'.map SyntaxNode.id) : ∀ v ∈ ws, x.id ∉ v.footprint := by
  intro v hv hmem
  obtain ⟨y, hy, hid, -⟩ := (hws.owned v hv x.id hmem).resolve_left (by simp)
  exact hx (hid ▸ List.mem_map_of_mem hy)

/-- A part of a part. -/
theorem part {ns₁ ms ns₂ : List SyntaxNode} {pre ws post : List Visit}
    (h : Phrase env f (ns₁ ++ ms ++ ns₂) s (pre ++ ws ++ post)) (hpre : Tidy none ns₁ pre)
    (hpost : Tidy none ns₂ post) : Phrase env f ms (pre.foldl (visit env) s) ws := by
  have hmem {e : Expr} (he : .expr e ∈ ms) : .expr e ∈ ns₁ ++ ms ++ ns₂ := by simp [he]
  have hnodup := h.nodup
  simp only [List.map_append] at hnodup
  -- Nothing before or after the part writes to its nodes, as no other node has their numbers.
  have hbefore (e : Expr) (he : .expr e ∈ ms) :
      (pre.foldl (visit env) s).store.cell (.node e.id) = s.store.cell (.node e.id) := by
    refine cell_foldl_visit_of_notMem ?_ (h.notImplied e (hmem he)) s
    refine notMem_footprint hpre (x := .expr e) fun hid => ?_
    exact List.disjoint_of_nodup_append (List.nodup_append.1 hnodup).1 hid (List.mem_map_of_mem he)
  have hafter (e : Expr) (he : .expr e ∈ ms) :
      (post.foldl (visit env) (ws.foldl (visit env) (pre.foldl (visit env) s))).store.cell
          (.node e.id) =
        (ws.foldl (visit env) (pre.foldl (visit env) s)).store.cell (.node e.id) := by
    refine cell_foldl_visit_of_notMem ?_ (h.notImplied e (hmem he)) _
    refine notMem_footprint hpost (x := .expr e) fun hid => ?_
    refine List.disjoint_of_nodup_append hnodup (List.mem_append_right _ ?_) hid
    exact List.mem_map_of_mem he
  have hpass : (pre.foldl (visit env) s).store.pass = s.store.pass :=
    (linked_moments env pre s).pass_eq
  have hclean := h.clean
  have hfinal := h.final
  simp only [List.foldl_append] at hclean hfinal
  exact {
    nodup := (List.nodup_append.1 (List.nodup_append.1 hnodup).1).2.1
    notImplied := fun e he => h.notImplied e (hmem he)
    has := fun e he => ((linked_moments env pre s).has_iff _).2 (h.has e (hmem he))
    isOpen := fun e he => by
      rw [Store.hasTypeThisPass_congr (by rw [hbefore e he]) hpass]
      exact h.isOpen e (hmem he)
    pass := hpass.trans h.pass
    clean := isClean_of_foldl_visit hclean
    final := fun e he => (hafter e he).symm.trans (hfinal e (hmem he)) }

theorem first {ms ns' : List SyntaxNode} {ws post : List Visit}
    (h : Phrase env f (ms ++ ns') s (ws ++ post)) (hpost : Tidy none ns' post) :
    Phrase env f ms s ws := by
  have h : Phrase env f ([] ++ ms ++ ns') s ([] ++ ws ++ post) := h
  exact h.part .nil hpost

theorem last {ns' ms : List SyntaxNode} {pre ws : List Visit}
    (h : Phrase env f (ns' ++ ms) s (pre ++ ws)) (hpre : Tidy none ns' pre) :
    Phrase env f ms (pre.foldl (visit env) s) ws := by
  rw [← List.append_nil (ns' ++ ms), ← List.append_nil (pre ++ ws)] at h
  exact h.part hpre .nil

/-- Without a visit at the end that writes to no node. -/
theorem quiet {pre : List Visit} {v : Visit} (h : Phrase env f ns s (pre ++ [v]))
    (hv : Tidy none [] [v]) : Phrase env f ns s pre := by
  rw [← List.append_nil ns] at h
  exact h.first hv

section

variable {x e : Expr} {pre : List Visit} {v : Visit}

/-- The parts of a node, without the visit of the node itself. -/
theorem parts (h : Phrase env f (.expr x :: ns) s (pre ++ [v])) (hv : Tidy none [.expr x] [v]) :
    Phrase env f ns s pre :=
  (h.perm (List.perm_append_singleton (SyntaxNode.expr x) ns).symm).first hv

/-- The visit of a node, after those of its parts. -/
theorem own (h : Phrase env f (.expr x :: ns) s (pre ++ [v])) (hpre : Tidy none ns pre) :
    Phrase env f [.expr x] (pre.foldl (visit env) s) [v] :=
  (h.perm (List.perm_append_singleton (SyntaxNode.expr x) ns).symm).last hpre

/-- The visit of a node finds at its parts what the pass leaves there. -/
theorem cell_part (h : Phrase env f (.expr x :: ns) s (pre ++ [v])) (hv : v.footprint = [x.id])
    (he : .expr e ∈ ns) :
    (pre.foldl (visit env) s).store.cell (.node e.id) = f.cell (.node e.id) := by
  have hne : e.id ∉ v.footprint := by
    rw [hv, List.mem_singleton]
    intro hid
    have hx := (List.nodup_cons.1 h.nodup).1
    exact hx (List.mem_map.2 ⟨_, he, hid⟩)
  rw [← h.final e (List.mem_cons_of_mem _ he), List.foldl_append]
  exact (cell_visit_of_notMem hne (h.notImplied e (List.mem_cons_of_mem _ he)) _).symm

end

section

variable {x : Expr} {v : Visit}

theorem has_self (h : Phrase env f [.expr x] s [v]) : s.store.Has (.node x.id) :=
  h.has x (List.mem_singleton_self _)

theorem isOpen_self (h : Phrase env f [.expr x] s [v]) :
    s.store.hasTypeThisPass (.node x.id) = false :=
  h.isOpen x (List.mem_singleton_self _)

/-- The type that the visit of a node leaves. -/
theorem tag_self (h : Phrase env f [.expr x] s [v]) :
    f.tag (.node x.id) = (visit env s v).store.tag (.node x.id) :=
  (Store.tag_congr (h.final x (List.mem_singleton_self _))).symm

/-- A visit that begins with a type for its node. -/
theorem tag_of_markType_bind {t : Tag} {g : Unit → Check Unit} (h : Phrase env f [.expr x] s [v])
    (hv : v.apply env = markType (.node x.id) (.inferred t) >>= g) (ht : t ≠ .unknown) :
    f.tag (.node x.id) = t := by
  have hty := ty_cell_run_markType_bind h.has_self h.isOpen_self
    (by simpa using ht : (Ty.inferred t).isKnown = true) g
  rw [h.tag_self, visit, hv, Store.tag_eq_of_ty_cell hty]
  rfl

theorem tag_infer {t : Tag} (h : Phrase env f [.expr x] s [.infer x.id t]) (ht : t ≠ .unknown) :
    f.tag (.node x.id) = t :=
  h.tag_of_markType_bind (g := pure) rfl ht

end

end Phrase

/-- No type comes from a pass that is still to come. -/
def Store.IsDated (s : Store) : Prop := ∀ t m, (s.cell t).ty = some m → m.pass ≤ s.pass

theorem Write.isDated_onStore {s : Store} (h : s.IsDated) (w : Write) : (w.onStore s).IsDated := by
  intro t m hm
  rw [pass_onStore]
  rcases w.ty_cell_onStore s t with hty | ⟨ty, -, -, hty⟩ | ⟨b, ty, -, -, hty⟩
  · exact h t m (hty ▸ hm)
  · obtain rfl := Option.some.inj (hty.symm.trans hm)
    exact Nat.le_refl _
  · obtain rfl := Option.some.inj (hty.symm.trans hm)
    cases hold : (s.cell t).ty with
    | none => exact Nat.le_refl _
    | some m' => exact h t m' hold

theorem Store.IsDated.hasTypeThisPass_beginPass {s : CheckState} (h : s.store.IsDated)
    (t : Target) : s.beginPass.store.hasTypeThisPass t = false := by
  rw [Bool.eq_false_iff, Ne, Store.hasTypeThisPass_iff]
  rintro ⟨m, hm, hpass, -⟩
  exact Nat.not_succ_le_self _ (hpass ▸ h t m hm)

def Store.HasDatedShapes (s : Store) : Prop := ∀ t m, (s.cell t).shape = some m → m.pass ≤ s.pass

theorem Write.hasDatedShapes_onStore {s : Store} (h : s.HasDatedShapes) (w : Write) :
    (w.onStore s).HasDatedShapes := by
  intro t m hm
  rw [pass_onStore]
  rcases w.onStore_cases s with ⟨u, ty, -, -, hs⟩ | ⟨b, ty, -, hs⟩ | ⟨u, x, hs⟩ | ⟨hn, hb, -⟩
  · rw [hs, Store.shape_cell_forceType] at hm
    exact h t m hm
  · rw [hs, Store.shape_cell_reimply] at hm
    exact h t m hm
  · rw [hs, Store.shape_cell_forceShape] at hm
    split at hm
    · obtain rfl := Option.some.inj hm
      exact Nat.le_refl _
    · exact h t m hm
  · rw [Store.cell_congr hn hb] at hm
    exact h t m hm

theorem Store.HasDatedShapes.hasShapeThisPass_beginPass {s : CheckState}
    (h : s.store.HasDatedShapes) (t : Target) :
    s.beginPass.store.hasShapeThisPass t = false := by
  rw [Bool.eq_false_iff, Ne, Store.hasShapeThisPass, Option.any_eq_true]
  rintro ⟨m, hm, hpass⟩
  exact Nat.not_succ_le_self _ (beq_iff_eq.1 hpass ▸ h t m hm)

namespace Program

variable {p : Program} {config : Config}

theorem isDated_of_mem_passStarts {s : CheckState} (hs : s ∈ p.passStarts config) :
    s.store.IsDated := by
  refine Check.forall_starts (P := fun s => s.store.IsDated) (fun s hs => ?_) ?_ s hs
  · have hbegin : s.beginPass.store.IsDated := fun t m hm => Nat.le_succ_of_le (hs t m hm)
    refine (Check.linked_passMoments _ p.visits s).lasts (P := fun s => s.store.IsDated) hbegin ?_
    intro m _ hm
    rw [Moment.after, Write.store_apply]
    exact Write.isDated_onStore hm m.write
  · intro t m hm
    simp [initialState] at hm

theorem hasDatedShapes_of_mem_passStarts {s : CheckState} (hs : s ∈ p.passStarts config) :
    s.store.HasDatedShapes := by
  refine Check.forall_starts (P := fun s => s.store.HasDatedShapes) (fun s hs => ?_) ?_ s hs
  · have hbegin : s.beginPass.store.HasDatedShapes := fun t m hm => Nat.le_succ_of_le (hs t m hm)
    refine (Check.linked_passMoments _ p.visits s).lasts (P := fun s => s.store.HasDatedShapes)
      hbegin fun m _ hm => ?_
    rw [Moment.after, Write.store_apply]
    exact Write.hasDatedShapes_onStore hm m.write
  · intro t m hm
    simp [initialState] at hm

/-- A run that does not end in time is an error. -/
theorem errorCount_check_of_passes {converged : Bool} {t : CheckState}
    (h : Check.passes (p.checkEnv config) p.visits config.limit (p.initialState p.resolve) =
      (converged, t)) :
    (p.check config).errorCount = t.reporter.errorCount + if converged then 0 else 1 := by
  have h : Check.passes (p.checkEnv config) p.visits config.limit
      (p.initialState (p.checkEnv config).resolution) = (converged, t) := h
  simp only [check, h]
  cases converged with
  | true => rfl
  | false => exact Reporter.errorCount_emit_error ..

/-- A check without errors ends in time, with a pass in which the whole program is a phrase. -/
theorem WellFormed.exists_phrase_of_check (hp : p.WellFormed)
    (h : (p.check config).errorCount = 0) :
    ∃ s ∈ p.passStarts config,
      (p.check config).store = (Check.pass (p.checkEnv config) p.visits s).store ∧
      Phrase (p.checkEnv config) (p.check config).store p.nodes s.beginPass p.visits := by
  obtain ⟨⟨converged, t⟩, hpasses⟩ : ∃ r, Check.passes (p.checkEnv config) p.visits config.limit
    (p.initialState p.resolve) = r := ⟨_, rfl⟩
  have herrors := errorCount_check_of_passes hpasses
  obtain ⟨hclean, rfl⟩ : t.IsClean ∧ converged = true := by
    cases converged <;> simp_all [CheckState.IsClean]
  obtain ⟨s, hs, rfl⟩ := Check.exists_start_of_passes hpasses
  have hstore : (p.check config).store = (Check.pass (p.checkEnv config) p.visits s).store :=
    congrArg (fun r : Bool × CheckState => r.2.store) hpasses
  refine ⟨s, hs, hstore, ?_⟩
  exact {
    nodup := hp.nodup_ids
    notImplied := fun e he => hp.not_implies he
    has := fun e he => has_node_of_mem_passStarts hs (hp.id_lt he)
    isOpen := fun e _ => (isDated_of_mem_passStarts hs).hasTypeThisPass_beginPass (.node e.id)
    pass := by rw [hstore, (Check.linked_passMoments _ p.visits s).pass_eq]
    clean := hclean
    final := fun e _ => by rw [hstore, Check.pass] }

end Program

end TagCheck
