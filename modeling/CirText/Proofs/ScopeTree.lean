import CirText.Proofs.Soundness

/-!
# Scopes and regions

The table of scopes mirrors the nesting of regions. Scopes form a tree, every region has a scope of
its own inside the scope around the region, in the order of a walk, and every name carries the scope
that it stands in.
-/

namespace CirText

/-! ## The tree of scopes -/

/-- Whether scopes form a tree: every scope but that of the module is inside one with a smaller
number, and the scopes around a scope lead to that of the module without repetition. -/
structure SymbolTable.IsTree (table : SymbolTable) : Prop where
  root : (table.scope .root).parent = none
  parents : ∀ id < table.scopes.size, id ≠ ScopeId.root →
    ∃ parent < id, (table.scope id).parent = some parent
  chains : ∀ id < table.scopes.size,
    (table.chain id).IsChain (fun inner outer => (table.scope inner).parent = some outer) ∧
      (table.chain id).Nodup ∧ (table.chain id).getLast? = some ScopeId.root

namespace SymbolTable.WellFormed

variable {table : SymbolTable}

theorem chain_root (wf : table.WellFormed) : table.chain ScopeId.root = [ScopeId.root] := by
  rw [chain, enclosing, wf.parent_root]

theorem chain_of_parent {id parent : ScopeId} (inside : (table.scope id).parent = some parent)
    (smaller : parent < id) : table.chain id = id :: table.chain parent := by
  rw [chain, enclosing, inside]
  simp only [smaller, if_true]
  rfl

/-- Going outwards, the numbers of scopes decrease down to that of the module. -/
theorem chain_spec (wf : table.WellFormed) (id : ScopeId) (existing : id < table.scopes.size) :
    (table.chain id).IsChain (fun inner outer => (table.scope inner).parent = some outer) ∧
      (table.chain id).Pairwise (· > ·) ∧ (table.chain id).head? = some id ∧
        (table.chain id).getLast? = some ScopeId.root := by
  induction id using Nat.strong_induction_on with
  | _ id ih =>
    by_cases atRoot : id = ScopeId.root
    · rw [atRoot, wf.chain_root]
      exact ⟨.singleton _, List.pairwise_singleton _ _, rfl, rfl⟩
    · obtain ⟨parent, smaller, inside⟩ := wf.parent_lt id existing atRoot
      obtain ⟨linked, decreasing, first, last⟩ := ih parent smaller (Nat.lt_trans smaller existing)
      rw [chain_of_parent inside smaller]
      refine ⟨?_, ?_, rfl, ?_⟩
      · refine List.isChain_cons.2 ⟨?_, linked⟩
        intro next isNext
        rw [first] at isNext
        cases isNext
        exact inside
      · refine List.pairwise_cons.2 ⟨?_, decreasing⟩
        intro outer member
        rcases List.mem_cons.1 member with rfl | further
        · exact smaller
        · exact Nat.lt_trans (lt_of_mem_enclosing further) smaller
      · rw [List.getLast?_cons, last, Option.getD_some]

theorem isTree (wf : table.WellFormed) : table.IsTree where
  root := wf.parent_root
  parents := wf.parent_lt
  chains id existing :=
    have spec := wf.chain_spec id existing
    ⟨spec.1, spec.2.1.imp (fun greater => Nat.ne_of_gt greater), spec.2.2.2⟩

end SymbolTable.WellFormed

/-! ## Scopes of regions and names -/

/-- Whether the table of a module mirrors the nesting of its regions. -/
structure Module.MirrorsScopes (unit : Module) : Prop where
  tree : unit.symbols.IsTree
  regions : (unit.allRegions.map (·.scope)).Pairwise (· < ·)
  operations : ∀ around op, unit.Encloses around op →
    op.Scoped unit.symbols (innermostScope around)
  blocks : ∀ op ∈ unit.preorder, ∀ region ∈ op.regions, region.Scoped

/-- In the module that is read, with errors or without, scopes mirror the nesting of regions. -/
theorem parse_scopes (source : String) (options : Options) :
    (parse source options).unit.MirrorsScopes := by
  have sound := parse_sound source options
  obtain ⟨_, _, accounted⟩ := run_sound source options .structural
  constructor
  · rw [parse_symbols]
    exact accounted.table.isTree
  · exact sound.scopes
  · intro around op encloses
    exact (Operation.Throughout.of_encloses encloses sound.items).here.names
  · intro op member region inOp
    obtain ⟨around, encloses⟩ := Module.exists_encloses_iff.2 member
    exact ((Operation.Throughout.of_encloses encloses sound.items).here.regions region inOp).names

end CirText
