import TagCheck.Proofs.Program.Precedence

/-! How deep the parts of a program that has been read stand in each other. Besides stems their
number is bounded on the way from a statement to its innermost part. Stems are not bounded:
operators, calls, properties, tagged templates and constructions are read in loops, and each of
them puts what is read so far inside a new part. -/
namespace TagCheck

open Parse

namespace Part

/-- Parts that stand in each other, from this one inwards: how many they are, and how many of them
are the stem of the part before. -/
inductive Chain : Part → Nat → Nat → Prop where
  | here (x : Part) : x.Chain 1 0
  | stem {x y : Part} {n k : Nat} : x.stem? = some y → y.Chain n k → x.Chain (n + 1) (k + 1)
  | branch {x y : Part} {n k : Nat} : y ∈ x.branches → y.Chain n k → x.Chain (n + 1) k

def Within (w : Nat) (x : Part) : Prop := ∀ n k, x.Chain n k → n ≤ w + k

variable {x : Part} {w v : Nat}

theorem Within.mono (h : x.Within w) (hle : w ≤ v) : x.Within v := by
  intro n k hchain
  have := h n k hchain
  omega

theorem within_succ (hstem : ∀ y, x.stem? = some y → y.Within (w + 1))
    (hbranches : ∀ y ∈ x.branches, y.Within w) : x.Within (w + 1) := by
  intro n k hchain
  cases hchain with
  | here => omega
  | @stem _ y n k hy hchain =>
    have := hstem y hy n k hchain
    omega
  | @branch _ y n k hy hchain =>
    have := hbranches y hy n k hchain
    omega

theorem Grown.within {S : Position → Prop} (h : x.Grown S w) : x.Within w := by
  induction h with
  | grow _ _ _ hstem hbranches => exact within_succ hstem hbranches

end Part

/-! A name and properties of it, as many as one likes. -/

def dotTokens : Nat → List Token
  | 0 => [⟨.eof, .start, false⟩]
  | k + 1 => ⟨.punct .dot, .start, false⟩ :: ⟨.ident "b", .start, false⟩ :: dotTokens k

def dotted (k : Nat) : Cursor := .ofTokens (⟨.ident "a", .start, false⟩ :: dotTokens k)

theorem lt_length_dotTokens (k : Nat) : k < (dotTokens k).length := by
  induction k with
  | zero => decide
  | succ k ih =>
    rw [dotTokens, List.length_cons, List.length_cons]
    omega

namespace Grammar

variable (g : Grammar)

/-- Every property puts what stands before it one part deeper. -/
theorem run_extend_dots (k fuel : Nat) (hfuel : k < fuel) (e : Expr) (i j : Nat) :
    ∃ e', (extend g.chainNext fuel e).run ⟨dotTokens k, i, j⟩ = .ok (e', ⟨dotTokens 0, i + k, j⟩) ∧
      ∀ n m, (Part.expr e).Chain n m → (Part.expr e').Chain (n + k) (m + k) := by
  induction k generalizing fuel e i with
  | zero =>
    obtain ⟨fuel, rfl⟩ := Nat.exists_eq_add_of_lt hfuel
    exact ⟨e, rfl, fun n m h => h⟩
  | succ k ih =>
    obtain ⟨fuel, rfl⟩ : ∃ f, fuel = f + 1 := Nat.exists_eq_add_one.2 (by omega)
    have hnext : (g.chainNext e).run ⟨dotTokens (k + 1), i, j⟩ =
        .ok (some (.member ⟨i, e.pos⟩ e (.name "b")), ⟨dotTokens k, i + 1, j⟩) := rfl
    obtain ⟨e', hrun, hchain⟩ := ih fuel (by omega) (.member ⟨i, e.pos⟩ e (.name "b")) (i + 1)
    refine ⟨e', ?_, fun n m h => ?_⟩
    · rw [extend, run_bind_of_ok hnext, Nat.add_comm k 1, ← Nat.add_assoc]
      exact hrun
    · have := hchain (n + 1) (m + 1) (.stem rfl h)
      rwa [Nat.add_right_comm, Nat.add_right_comm m] at this

theorem run_unary_dots (k : Nat) :
    ∃ e, g.unary.run (dotted k) = .ok (e, ⟨dotTokens 0, 1 + k, 0⟩) ∧
      (Part.expr e).Chain (1 + k) k := by
  let name : Expr := .ident ⟨⟨0, .start⟩, "a"⟩
  have hfuel : k < (dotTokens k).length + 1 := Nat.lt_succ_of_lt (lt_length_dotTokens k)
  obtain ⟨e, hrun, hchain⟩ := g.run_extend_dots k _ hfuel name 1 0
  have hcall : g.callChain.run (dotted k) = .ok (e, ⟨dotTokens 0, 1 + k, 0⟩) := hrun
  have hupdate : g.trailingUpdate.run (dotted k) = .ok (e, ⟨dotTokens 0, 1 + k, 0⟩) := by
    rw [trailingUpdate, run_bind_of_ok hcall]
    rfl
  refine ⟨e, hupdate, ?_⟩
  have hname := hchain 1 0 (.here _)
  rwa [Nat.zero_add] at hname

/-- At the end an operand is all that there is. -/
theorem run_binary_at_end {e : Expr} {c : Cursor} {i j : Nat}
    (h : g.operand.run c = .ok (e, ⟨dotTokens 0, i, j⟩)) (k : Nat) :
    (g.binary k).run c = .ok (e, ⟨dotTokens 0, i, j⟩) := by
  rw [binary, run_bind_of_ok h, run_bind_of_ok (run_budget _), extend]
  have hnext : (g.joinNext k e).run ⟨dotTokens 0, i, j⟩ = .ok (none, ⟨dotTokens 0, i, j⟩) := by
    rw [joinNext]
    rfl
  rw [run_bind_of_ok hnext]
  rfl

theorem run_expression_dots (n k : Nat) :
    ∃ e, (grammar (n + 2)).expression.run (dotted k) = .ok (e, ⟨dotTokens 0, 1 + k, 0⟩) ∧
      (Part.expr e).Chain (1 + k) k := by
  obtain ⟨e, hrun, hchain⟩ := (grammar n).run_unary_dots k
  refine ⟨e, ?_, hchain⟩
  have harrow : isArrowNext.run (dotted k) = .ok (false, dotted k) := by cases k <;> rfl
  have hconditional : (grammar (n + 1)).conditional.run (dotted k) =
      .ok (e, ⟨dotTokens 0, 1 + k, 0⟩) := by
    rw [conditional, run_bind_of_ok (run_binary_at_end _ hrun _)]
    rfl
  have hassignment : (grammar (n + 1)).assignmentOrArrow.run (dotted k) =
      .ok (e, ⟨dotTokens 0, 1 + k, 0⟩) := by
    rw [assignmentOrArrow, run_bind_of_ok harrow]
    simp only [Bool.false_eq_true, if_false]
    rw [run_bind_of_ok hconditional]
    rfl
  change ((grammar (n + 1)).assignmentOrArrow >>= _).run _ = _
  rw [run_bind_of_ok hassignment]
  rfl

end Grammar

namespace Program

/-- Some program of one statement has stems in each other, as many as one likes. -/
theorem exists_chain (k : Nat) : ∃ tokens p s,
    Program.ofTokens tokens = .ok p ∧ s ∈ p.body ∧ (Part.stmt s).Chain (2 + k) k := by
  obtain ⟨e, hrun, hchain⟩ := Grammar.run_expression_dots 97 k
  have hstatement : (grammar maxNesting).statement.run (dotted k) =
      .ok (.expr e, ⟨dotTokens 0, 1 + k, 0⟩) := by
    change (do let e ← (grammar 99).expression; endStatement; pure (Stmt.expr e)).run _ = _
    rw [run_bind_of_ok hrun]
    rfl
  have hitem : (do if ← isAtEnd then return none else some <$> (grammar maxNesting).statement).run
      (dotted k) = .ok (some (.expr e), ⟨dotTokens 0, 1 + k, 0⟩) := by
    change (some <$> (grammar maxNesting).statement).run (dotted k) = _
    rw [StateT.run_map, hstatement]
    rfl
  have hstatements : (grammar maxNesting).statements.run (dotted k) =
      .ok ([.expr e], ⟨dotTokens 0, 1 + k, 0⟩) := by
    rw [Grammar.statements, run_bind_of_ok (run_budget _), collect, run_bind_of_ok hitem]
    rfl
  refine ⟨(dotted k).rest, ⟨[.expr e], 1 + k, 0⟩, .expr e, ?_, List.mem_singleton_self _, ?_⟩
  · change ((grammar maxNesting).statements.run (dotted k) >>= _) = _
    rw [hstatements]
    rfl
  · have : (Part.stmt (.expr e)).Chain (1 + k + 1) k := .branch (List.mem_singleton_self _) hchain
    rwa [Nat.add_right_comm] at this

/-- Parts of a program that stand in each other are at most twenty for every level of nesting that
is read, besides stems. -/
theorem length_le_of_chain {tokens : List Token} {p : Program} {s : Stmt} {n k : Nat}
    (hp : Program.ofTokens tokens = .ok p) (hs : s ∈ p.body) (h : (Part.stmt s).Chain n k) :
    n ≤ 20 * maxNesting + k := by
  obtain ⟨⟨body, c⟩, hrun, hp⟩ := exists_of_bind_eq_ok hp
  cases hp
  have hon : (Cursor.ofTokens tokens).On fun _ => True := fun _ _ _ => trivial
  have hgrown := ((isDense_grammar maxNesting).statements _ hon body c hrun).2.2 s hs
  exact hgrown.within.mono (by decide) n k h

theorem length_le_of_chain_of_properties : ∃ tokens p s, Program.ofTokens tokens = .ok p ∧
    s ∈ p.body ∧ (Part.stmt s).Chain 4002 4000 ∧ 4002 ≤ 20 * maxNesting + 4000 := by
  obtain ⟨tokens, p, s, hp, hs, h⟩ := exists_chain 4000
  exact ⟨tokens, p, s, hp, hs, h, length_le_of_chain hp hs h⟩

/-- With stems, chains get longer. -/
theorem chain_longer_than_nesting : ∃ tokens p s n k, Program.ofTokens tokens = .ok p ∧
    s ∈ p.body ∧ (Part.stmt s).Chain n k ∧ 20 * maxNesting < n := by
  obtain ⟨tokens, p, s, hp, hs, h⟩ := exists_chain (20 * maxNesting)
  exact ⟨tokens, p, s, _, _, hp, hs, h, by omega⟩

end Program

end TagCheck
