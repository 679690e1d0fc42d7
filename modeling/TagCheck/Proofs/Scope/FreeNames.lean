import TagCheck.Proofs.Scope.Declared

/-! The free names of an expression. What an identifier in the expression means is declared in the
expression itself, unless its name is free there. -/
namespace TagCheck

def Site.within (outer : List (List Declaration)) (s : Site) : Site := ⟨s.ident, s.scopes ++ outer⟩

theorem Site.declaration?_within {s : Site} {d : Declaration} (outer : List (List Declaration))
    (h : s.declaration? = some d) : (s.within outer).declaration? = some d := by
  have hfind : s.scopes.findSome? (Declaration.find? s.ident.name) = some d := h
  rw [declaration?, within, List.findSome?_append, hfind, Option.some_or]

namespace ScopeTree

mutual

theorem sites_append (outer : List (List Declaration)) :
    (t : ScopeTree) → (scopes : List (List Declaration)) →
      t.sites (scopes ++ outer) = (t.sites scopes).map (Site.within outer)
  | use i, scopes => by simp [sites, Site.within]
  | scope head inHead body inBody, scopes => by
    rw [sites, sites, List.map_append, ← List.cons_append, ← List.cons_append,
      sitesList_append_scopes outer inHead, sitesList_append_scopes outer inBody]

theorem sitesList_append_scopes (outer : List (List Declaration)) :
    (ts : List ScopeTree) → (scopes : List (List Declaration)) →
      sitesList (scopes ++ outer) ts = (sitesList scopes ts).map (Site.within outer)
  | [], scopes => by simp [sitesList]
  | t :: ts, scopes => by
    rw [sitesList, sitesList, List.map_append, sites_append outer t,
      sitesList_append_scopes outer ts]

end

mutual

/-- The scopes around a site are those around the tree and such as hold what the tree declares. -/
theorem subset_written_of_mem_sites : ∀ {t : ScopeTree} {scopes : List (List Declaration)}
    {site : Site}, site ∈ t.sites scopes → ∀ declared ∈ site.scopes,
      declared ∈ scopes ∨ declared ⊆ t.written
  | use i, scopes, site, h, declared, hmem => by
    rw [sites, List.mem_singleton] at h
    subst h
    exact .inl hmem
  | scope head inHead body inBody, scopes, site, h, declared, hmem => by
    rw [sites, List.mem_append] at h
    rw [written]
    rcases h with h | h
    · rcases subset_writtenList_of_mem_sitesList h declared hmem with hscope | hsub
      · rcases List.mem_cons.1 hscope with rfl | hscope
        · exact .inr fun d hd => by simp [hd]
        · exact .inl hscope
      · exact .inr fun d hd => by simp [hsub hd]
    · rcases subset_writtenList_of_mem_sitesList h declared hmem with hscope | hsub
      · rcases List.mem_cons.1 hscope with rfl | hscope
        · refine .inr fun d hd => ?_
          rcases List.mem_append.1 hd with hd | hd <;> simp [hd]
        · exact .inl hscope
      · exact .inr fun d hd => by simp [hsub hd]

theorem subset_writtenList_of_mem_sitesList : ∀ {ts : List ScopeTree}
    {scopes : List (List Declaration)} {site : Site}, site ∈ sitesList scopes ts →
      ∀ declared ∈ site.scopes, declared ∈ scopes ∨ declared ⊆ writtenList ts
  | [], scopes, site, h, declared, hmem => by simp [sitesList] at h
  | t :: ts, scopes, site, h, declared, hmem => by
    rw [sitesList, List.mem_append] at h
    rw [writtenList]
    rcases h with h | h
    · exact (subset_written_of_mem_sites h declared hmem).imp_right fun hsub =>
        List.subset_append_of_subset_left _ hsub
    · exact (subset_writtenList_of_mem_sitesList h declared hmem).imp_right fun hsub =>
        List.subset_append_of_subset_right _ hsub

end

end ScopeTree

theorem Covers.mem_idents_of_mem_written {ns : List SyntaxNode} {outer : List Ident}
    {ts : List ScopeTree} (h : Covers ns outer ts) {d : Declaration}
    (hd : d ∈ ScopeTree.writtenList ts) : d.ident ∈ ns.filterMap SyntaxNode.ident? := by
  obtain ⟨site, hsite, hident, -⟩ := h.answered [] d hd
  rw [← h.ident_sites [], ← hident]
  exact List.mem_map_of_mem hsite

namespace Expr

def freeNames (e : Expr) : List String :=
  ((ScopeTree.sitesList [] e.scopeTrees).filter (·.declaration?.isNone)).map (·.ident.name)

/-- Wherever the expression stands, a name that is not free means what the expression declares. -/
theorem exists_mem_written {e : Expr} {outer : List (List Declaration)} {site : Site}
    (hsite : site ∈ ScopeTree.sitesList outer e.scopeTrees)
    (hfree : site.ident.name ∉ e.freeNames) :
    ∃ d ∈ ScopeTree.writtenList e.scopeTrees, site.declaration? = some d := by
  rw [← List.nil_append outer, ScopeTree.sitesList_append_scopes outer e.scopeTrees []] at hsite
  obtain ⟨inner, hinner, rfl⟩ := List.mem_map.1 hsite
  have hsome : inner.declaration? ≠ none := fun hnone =>
    hfree (List.mem_map.2 ⟨inner, List.mem_filter.2 ⟨hinner, by simp [hnone]⟩, rfl⟩)
  obtain ⟨d, hd⟩ := Option.ne_none_iff_exists'.1 hsome
  refine ⟨d, ?_, inner.declaration?_within outer hd⟩
  obtain ⟨declared, hscope, hfind⟩ := List.exists_of_findSome?_eq_some hd
  rcases ScopeTree.subset_writtenList_of_mem_sitesList hinner declared hscope with hnil | hsub
  · cases hnil
  · exact hsub (List.mem_of_find?_eq_some hfind)

end Expr

namespace Program

variable {p : Program}

/-- What has a binding is an identifier. -/
theorem WellFormed.exists_ident (hp : p.WellFormed) {x : SyntaxNode} (hx : x ∈ p.nodes)
    {b : BindingId} (hb : p.resolve.bindingOf? x.id = some b) : ∃ i, x.ident? = some i := by
  obtain ⟨s, hs, htracks⟩ := hp.tracks_resolve
  obtain ⟨r, hr, -⟩ := Option.map_eq_some_iff.1 hb
  rw [← hs, htracks.refs, Option.bind_eq_some_iff] at hr
  obtain ⟨f, hf, -⟩ := hr
  obtain ⟨site, hsite, rfl⟩ := List.mem_map.1 (List.mem_of_find?_eq_some hf)
  obtain ⟨y, hy, hident⟩ := List.mem_filterMap.1 (hp.mem_identifiers hsite)
  have hfound := List.find?_some hf
  have hid : y.id = x.id := (SyntaxNode.id_of_ident? hident).trans (beq_iff_eq.1 hfound)
  obtain rfl := List.inj_on_of_nodup_map hp.nodup_ids hy hx hid
  exact ⟨_, hident⟩

/-- An expression of the program mentions a declaration only inside of itself if the name is not
free in it. -/
theorem WellFormed.exists_declared_within (hp : p.WellFormed) {e : Expr}
    {outer : List (List Declaration)}
    (hsites : ScopeTree.sitesList outer e.scopeTrees ⊆ p.sites) (hnodes : e.nodes ⊆ p.nodes)
    {d : Declaration} (hd : d ∈ p.declarations) (hfree : d.ident.name ∉ e.freeNames)
    {x : SyntaxNode} (hx : x ∈ e.nodes)
    (hbinding : p.resolve.bindingOf? x.id = some (p.declarations.idxOf d)) :
    ∃ y ∈ e.nodes, y.ident? = some d.ident := by
  have hcovers : Covers e.nodes [] e.scopeTrees :=
    e.unfolds.covers fun x hx => hp.isInPlace x (hnodes hx)
  obtain ⟨i, hi⟩ := hp.exists_ident (hnodes hx) hbinding
  have hmem : i ∈ e.nodes.filterMap SyntaxNode.ident? := List.mem_filterMap.2 ⟨x, hx, hi⟩
  rw [← hcovers.ident_sites outer] at hmem
  obtain ⟨site, hsite, rfl⟩ := List.mem_map.1 hmem
  -- The identifier means `d`, so `d` is of its name and, the name not being free, in `e`.
  rw [SyntaxNode.id_of_ident? hi, ← Site.id, hp.bindingOf?_eq (hsites hsite),
    Option.map_eq_some_iff] at hbinding
  obtain ⟨d', hd', hidx⟩ := hbinding
  obtain rfl : d = d' := (List.idxOf_inj hd).1 hidx.symm
  obtain ⟨declared, -, hfind⟩ := List.exists_of_findSome?_eq_some hd'
  have hname : d.ident.name = site.ident.name := by simpa using List.find?_some hfind
  obtain ⟨d', hwritten, hd''⟩ := Expr.exists_mem_written hsite (hname ▸ hfree)
  obtain rfl : d = d' := Option.some.inj (hd'.symm.trans hd'')
  exact List.mem_filterMap.1 (hcovers.mem_idents_of_mem_written hwritten)

end Program

end TagCheck
