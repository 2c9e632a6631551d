import CirText.Proofs.Parser.Charges
import CirText.Proofs.Resolution

/-!
# How often an unknown operation is reported

Every report of an unknown operation is charged to a token, so its keyword is reported at most once,
or twice if an equals sign comes directly in front of it.
-/

namespace CirText

namespace Parser

/-! ## Counting charges -/

/-- Whatever is charged is the place of one of the tokens or of the next one. -/
theorem mem_of_mem_charges {tokens behind : List Token} {span : Span}
    (charged : span ∈ charges tokens behind) :
    span ∈ tokens.map (·.span) ∨ span ∈ behind.map (·.span) := by
  induction tokens with
  | nil => cases charged
  | cons token tokens ih =>
    rw [List.map_cons, List.mem_cons]
    rcases List.mem_append.1 charged with here | later
    · rcases List.mem_append.1 here with next | own
      · split at next
        · rw [Option.mem_toList, Option.map_eq_some_iff] at next
          obtain ⟨found, isHead, rfl⟩ := next
          have member := List.mem_of_mem_head? isHead
          rcases List.mem_append.1 member with inside | outside
          · exact .inl (.inr (List.mem_map_of_mem inside))
          · exact .inr (List.mem_map_of_mem outside)
        · cases next
      · split at own
        · exact .inl (.inl (List.mem_singleton.1 own))
        · cases own
    · rcases ih later with inside | outside
      · exact .inl (.inr inside)
      · exact .inr outside

/-- What another token pays for at a place, in front of the next one. -/
theorem count_charge_of_ne {token next : Token} {behind : List Token} {span : Span}
    (ne : token.span ≠ span) :
    (charge token (next :: behind)).count span =
      if token.isPunct .equal = true ∧ next.span = span then 1 else 0 := by
  have own : (if token.kind = .keyword then [token.span] else []).count span = 0 := by
    split
    · exact List.count_eq_zero.2 fun member => ne (List.mem_singleton.1 member).symm
    · rfl
  rw [charge, List.count_append, own, Nat.add_zero]
  by_cases isEqual : token.isPunct .equal = true
  · simp [isEqual, List.count_singleton]
  · simp [isEqual]

/-- An equals sign is no keyword, so a token pays for one report at most. -/
theorem length_charge_le (token : Token) (behind : List Token) :
    (charge token behind).length ≤ 1 := by
  unfold charge
  split
  · rename_i isEqual
    have noKeyword : token.kind ≠ .keyword := by
      rw [beq_iff_eq.1 isEqual]
      nofun
    rw [if_neg noKeyword, List.append_nil]
    cases behind.head? <;> simp
  · split <;> simp

/-- The tokens in front of a token are charged for one report at it if the last of them is an equals
sign, and else for none. -/
theorem count_charges_front {front back : List Token} {token : Token}
    (distinct : ((front ++ token :: back).map (·.span)).Nodup) :
    (charges front (token :: back)).count token.span =
      if front.getLast?.any (·.isPunct .equal) then 1 else 0 := by
  induction front with
  | nil => rfl
  | cons first front ih =>
    rw [List.cons_append, List.map_cons, List.nodup_cons] at distinct
    have ne : first.span ≠ token.span := by
      intro same
      exact distinct.1 (same ▸ List.mem_map_of_mem (List.mem_append_right _ List.mem_cons_self))
    rw [charges, List.count_append, ih distinct.2]
    cases front with
    | nil =>
      rw [List.nil_append, count_charge_of_ne ne]
      by_cases isEqual : first.isPunct .equal = true <;> simp [isEqual]
    | cons second front =>
      have other : second.span ≠ token.span := by
        rw [List.cons_append, List.map_cons, List.nodup_cons] at distinct
        intro same
        exact distinct.2.1 (same ▸ List.mem_map_of_mem (List.mem_append_right _ List.mem_cons_self))
      rw [List.cons_append, count_charge_of_ne ne, if_neg fun both => other both.2,
        List.getLast?_cons_cons, Nat.zero_add]

/-- At a token at most one report is charged, or two if an equals sign comes in front of it. -/
theorem count_charges {front back : List Token} {token : Token}
    (distinct : ((front ++ token :: back).map (·.span)).Nodup) :
    (charges (front ++ token :: back) []).count token.span ≤
      if front.getLast?.any (·.isPunct .equal) then 2 else 1 := by
  have alone : token.span ∉ back.map (·.span) := by
    rw [List.map_append, List.nodup_append] at distinct
    exact (List.nodup_cons.1 distinct.2.1).1
  have later : (charges back []).count token.span = 0 := by
    refine List.count_eq_zero.2 fun charged => ?_
    rcases mem_of_mem_charges charged with inside | outside
    · exact alone inside
    · cases outside
  have own := (List.count_le_length (a := token.span)).trans (length_charge_le token back)
  have before := count_charges_front distinct
  rw [charges_append, charges, List.count_append, List.count_append, List.append_nil,
    List.append_nil, before, later]
  split <;> omega

end Parser

/-! ## Reports of unknown operations -/

/-- The number of reports of an unknown operation at a place. -/
def Parsed.unknownOpcodesAt (parsed : Parsed) (span : Span) : Nat :=
  parsed.diagnostics.countP fun diagnostic => diagnostic.unknownOpcode? == some span

theorem unknownOpcodesAt_eq (source : String) (options : Options) (adapters : Adapters)
    (span : Span) : (parse source options adapters).unknownOpcodesAt span =
      (Parser.run source options adapters).2.unknowns.count span := by
  have asOption : (fun diagnostic : Diagnostic => diagnostic.unknownOpcode? == some span) =
      fun diagnostic => (diagnostic.unknownOpcode?.map (· == span)).getD false := by
    funext diagnostic
    cases diagnostic.unknownOpcode? <;> rfl
  have verdicts : ∀ verdicts : List Unresolved, (verdicts.map Diagnostic.ofUnresolved).countP
      (fun diagnostic => diagnostic.unknownOpcode? == some span) = 0 := by
    intro verdicts
    rw [List.countP_eq_zero]
    rintro diagnostic member same
    obtain ⟨verdict, _, rfl⟩ := List.mem_map.1 member
    cases same
  rw [Parsed.unknownOpcodesAt, (parse_diagnostics_perm source options adapters).countP_eq,
    List.countP_append, verdicts, Nat.add_zero, asOption, Parser.State.unknowns, List.count,
    List.countP_filterMap]

/-- Errors of the lexer are no reports of unknown operations. -/
theorem unknowns_initial (lexed : Tokenized) : (Parser.initial lexed).unknowns = [] := by
  refine (Parser.unknowns_append (fun diagnostic member => ?_)
    { cursor := .ofTokenized lexed 0 }).trans rfl
  obtain ⟨error, _, rfl⟩ := List.mem_map.1 member
  rfl

/-- An unknown operation is reported at most once, or twice if an equals sign comes directly in
front of its keyword. -/
theorem parse_unknownOpcodes (source : String) (options : Options) (adapters : Adapters)
    {front back : List Token}
    {token : Token} (split : (tokenize source).tokens = front ++ token :: back) :
    (parse source options adapters).unknownOpcodesAt token.span ≤
      if front.getLast?.any (·.isPunct .equal) then 2 else 1 := by
  have distinct : ((tokenize source).tokens.map (·.span)).Nodup :=
    (ordered_tokens source).nodup_spans
  obtain ⟨taken, reported, tokens, unknowns, charged⟩ :=
    Parser.charged_sourceUnit options.maxDepth ⟨source.toList, options, adapters⟩
    (Parser.initial (tokenize source))
  change (tokenize source).tokens = taken ++ _ at tokens
  rw [unknowns_initial, List.nil_append] at unknowns
  have counted : (parse source options adapters).unknownOpcodesAt token.span =
      reported.count token.span := by
    rw [unknownOpcodesAt_eq, ← unknowns]
    rfl
  have all : List.Sublist reported (Parser.charges (front ++ token :: back) []) := by
    rw [← split, tokens, Parser.charges_append, List.append_nil]
    exact charged.trans (List.sublist_append_left _ _)
  rw [split] at distinct
  rw [counted]
  exact (all.count_le _).trans (Parser.count_charges distinct)

/-- Without an equals sign in front there is one report at most. -/
theorem parse_unknownOpcodes_noResult :
    (parse "cir.func @f() \x7b cir.zzz cir.return \x7d" {}).unknownOpcodesAt ⟨16, 23⟩ ≤ 1 := by
  have split : (tokenize "cir.func @f() \x7b cir.zzz cir.return \x7d").tokens =
      (tokenize "cir.func @f() \x7b cir.zzz cir.return \x7d").tokens.take 5 ++
        ⟨.keyword, "cir.zzz", ⟨16, 23⟩⟩ ::
          (tokenize "cir.func @f() \x7b cir.zzz cir.return \x7d").tokens.drop 6 := by
    cbv
  have noEqual :
      ((tokenize "cir.func @f() \x7b cir.zzz cir.return \x7d").tokens.take 5).getLast?.any
      (·.isPunct .equal) = false := by
    cbv
  have bound := parse_unknownOpcodes "cir.func @f() \x7b cir.zzz cir.return \x7d"
    {} .structural split
  rwa [noEqual] at bound

/-- Behind the name of a result an unknown operation is reported twice. -/
theorem unknownOpcode_reportedTwice :
    (∃ token ∈ (tokenize "cir.func @f() \x7b %0 = cir.zzz cir.return \x7d").tokens,
      token.kind = .keyword ∧ Opcode.ofKeyword? token.text = none ∧ token.span = ⟨21, 28⟩) ∧
    (parse "cir.func @f() \x7b %0 = cir.zzz cir.return \x7d" {}).unknownOpcodesAt ⟨21, 28⟩ = 2 := by
  have seventh : (tokenize "cir.func @f() \x7b %0 = cir.zzz cir.return \x7d").tokens[7]? =
      some ⟨.keyword, "cir.zzz", ⟨21, 28⟩⟩ := by
    cbv
  refine ⟨⟨_, List.mem_of_getElem? seventh, rfl, by decide, rfl⟩, ?_⟩
  cbv

end CirText
