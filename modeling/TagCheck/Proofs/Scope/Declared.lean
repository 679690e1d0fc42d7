import TagCheck.Proofs.Scope.Lexical

/-! Whatever declares a name means something: an identifier in a declaration is resolved, and an
identifier that is resolved is resolved to a binding of its name. -/
namespace TagCheck
namespace Program

def declaredNames (p : Program) : List String := p.resolve.bindings.toList.map (·.name)

variable {p : Program} {i : Ident}

theorem WellFormed.exists_site (hp : p.WellFormed) (hi : i ∈ p.identifiers) :
    ∃ site ∈ p.sites, site.ident = i :=
  List.mem_map.1 (hp.ident_sites ▸ hi)

theorem WellFormed.mem_identifiers (hp : p.WellFormed) {site : Site} (h : site ∈ p.sites) :
    site.ident ∈ p.identifiers :=
  hp.ident_sites ▸ List.mem_map_of_mem h

theorem WellFormed.mem_identifiers_of_refer (hp : p.WellFormed)
    (h : .refer i ∈ p.scopeEvents) : i ∈ p.identifiers := by
  have hsite := (p.unfolds.mem_trees hp.isInPlace).2 i h []
  rwa [ScopeTree.sitesList, ScopeTree.sitesList, List.append_nil, ← Program.sites,
    hp.ident_sites] at hsite

theorem WellFormed.exists_site_of_declare (hp : p.WellFormed) {kind : BindingKind}
    (h : .declare i kind ∈ p.scopeEvents) :
    ∃ site ∈ p.sites, site.ident = i ∧ site.declaration?.isSome = true := by
  have hwritten := (p.unfolds.mem_trees hp.isInPlace).1 i kind h
  simpa [ScopeTree.sitesList, Program.sites] using hp.covers.answered [] ⟨i, kind⟩ hwritten

theorem WellFormed.isSome_bindingOf?_of_declare (hp : p.WellFormed) {kind : BindingKind}
    (h : .declare i kind ∈ p.scopeEvents) : (p.resolve.bindingOf? i.node.id).isSome = true := by
  obtain ⟨site, hsite, rfl, hsome⟩ := hp.exists_site_of_declare h
  rw [← Site.id, hp.bindingOf?_eq hsite, Option.isSome_map, hsome]

theorem WellFormed.mem_identifiers_of_declare (hp : p.WellFormed) {kind : BindingKind}
    (h : .declare i kind ∈ p.scopeEvents) : i ∈ p.identifiers := by
  obtain ⟨site, hsite, rfl, -⟩ := hp.exists_site_of_declare h
  exact hp.mem_identifiers hsite

/-- What an identifier is resolved to has its name. -/
theorem WellFormed.name_of_bindingOf? (hp : p.WellFormed) (hi : i ∈ p.identifiers) {b : BindingId}
    (h : p.resolve.bindingOf? i.node.id = some b) :
    ∃ binding, p.resolve.bindings[b]? = some binding ∧ binding.name = i.name := by
  obtain ⟨site, hsite, rfl⟩ := hp.exists_site hi
  obtain ⟨s, hs, htracks⟩ := hp.tracks_resolve
  rw [← Site.id, hp.bindingOf?_eq hsite, Option.map_eq_some_iff] at h
  obtain ⟨d, hd, rfl⟩ := h
  have hmem := htracks.mem_of_mem _ (List.mem_map_of_mem hsite) d hd
  refine ⟨d.binding, hs ▸ htracks.bindings_getElem? hmem, ?_⟩
  obtain ⟨declared, -, hfind⟩ := List.exists_of_findSome?_eq_some hd
  simpa [Declaration.binding] using List.find?_some hfind

theorem WellFormed.mem_declaredNames (hp : p.WellFormed) (hi : i ∈ p.identifiers)
    (h : (p.resolve.bindingOf? i.node.id).isSome = true) : i.name ∈ p.declaredNames := by
  obtain ⟨b, hb⟩ := Option.isSome_iff_exists.1 h
  obtain ⟨binding, hbinding, hname⟩ := hp.name_of_bindingOf? hi hb
  rw [← Array.getElem?_toList] at hbinding
  exact List.mem_map.2 ⟨binding, List.mem_of_getElem? hbinding, hname⟩

end Program
end TagCheck
