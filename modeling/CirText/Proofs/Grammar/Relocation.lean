import CirText.Proofs.Parser.Relocation
import CirText.Proofs.Reread.Printing

/-!
# Grammars elsewhere in another text

What a grammar reads of a text it reads as well where another text goes on in the same way, if that
is so of its regions. The values are the same but for their places.
-/

namespace CirText

open CirText.Parser

namespace Relocation

variable {texts : Relocation} {R X α β : Type} {region : RegionKind → Bool → Meaning R} {f : R → X}
  {first inner : Grammar R α} {second : Grammar R β}

/-! ## Parts of grammars -/

theorem carries_definition (kind : NameKind) :
    texts.Carries ((Grammar.definition kind).Reads region) ((Grammar.definition kind).Same f) := by
  rintro before after twin defined ⟨found, middle, ⟨isName, passes⟩, defines⟩ follows
  obtain ⟨passesAgain, midway⟩ := follows.passes passes
  obtain ⟨b, last, again, same, done⟩ :=
    midway.defines defines (show (texts.moved found).name = found.name from rfl)
  exact ⟨b, last, ⟨texts.moved found, _, ⟨isName, passesAgain⟩, again⟩, same, done⟩

theorem carries_seq (carriesFirst : texts.Carries (first.Reads region) (first.Same f))
    (carriesSecond : texts.Carries (second.Reads region) (second.Same f)) :
    texts.Carries ((Grammar.seq first second).Reads region)
      ((Grammar.seq first second).Same f) := by
  rintro before after twin both ⟨middle, readsFirst, readsSecond⟩ follows
  obtain ⟨a, between, firstAgain, sameFirst, midway⟩ := carriesFirst readsFirst follows
  obtain ⟨b, last, secondAgain, sameSecond, done⟩ := carriesSecond readsSecond midway
  exact ⟨(a, b), last, ⟨between, firstAgain, secondAgain⟩, ⟨sameFirst, sameSecond⟩, done⟩

theorem carries_optional (present : Guard)
    (carries : texts.Carries (inner.Reads region) (inner.Same f)) :
    texts.Carries ((Grammar.optional present inner).Reads region)
      ((Grammar.optional present inner).Same f) := by
  intro before after twin found reads follows
  unfold Grammar.Reads at reads ⊢
  simp only [follows.holds_eq]
  split at reads
  · rename_i here
    simp only [if_pos here]
    obtain ⟨a, reads, rfl⟩ := reads
    obtain ⟨b, last, again, same, done⟩ := carries reads follows
    exact ⟨some b, last, ⟨b, again, rfl⟩, .some same, done⟩
  · rename_i absent
    simp only [if_neg absent]
    obtain ⟨rfl, rfl⟩ := reads
    exact ⟨none, twin, ⟨rfl, rfl⟩, .none, follows⟩

theorem carries_choice (isFirst : Guard)
    (carriesFirst : texts.Carries (first.Reads region) (first.Same f))
    (carriesSecond : texts.Carries (second.Reads region) (second.Same f)) :
    texts.Carries ((Grammar.choice isFirst first second).Reads region)
      ((Grammar.choice isFirst first second).Same f) := by
  intro before after twin either reads follows
  unfold Grammar.Reads at reads ⊢
  simp only [follows.holds_eq]
  split at reads
  · rename_i here
    simp only [if_pos here]
    obtain ⟨a, reads, rfl⟩ := reads
    obtain ⟨b, last, again, same, done⟩ := carriesFirst reads follows
    exact ⟨.inl b, last, ⟨b, again, rfl⟩, .inl same, done⟩
  · rename_i absent
    simp only [if_neg absent]
    obtain ⟨a, reads, rfl⟩ := reads
    obtain ⟨b, last, again, same, done⟩ := carriesSecond reads follows
    exact ⟨.inr b, last, ⟨b, again, rfl⟩, .inr same, done⟩

/-- A run of modifiers, whose record depends on places only as far as these are kept in it. -/
theorem carries_modifierRun {S : Type} {table : ModifierTable S} {unplaced : S → S}
    (stable : table.Stable unplaced) :
    texts.Carries ((Grammar.modifierRun table).Reads region)
      ((Grammar.modifierRun table).Same f) := by
  rintro before after twin _ ⟨modifiers, reads, rfl⟩ follows
  obtain ⟨others, last, again, same, done⟩ := Carries.modifiers table.rules rfl reads follows
  refine ⟨_, last, ⟨others, again, rfl⟩, ⟨table.list (table.collect others), ?_, ?_⟩, done⟩
  · exact (stable.collect_list _).symm
  · rw [← stable.list_unplaced, ← stable.list_unplaced, ← stable.collect_unplaced,
      ← stable.collect_unplaced, same]

theorem carries_binder (what : String)
    (carries : texts.Carries (inner.Reads region) (inner.Same f)) :
    texts.Carries ((Grammar.binder what inner).Reads region)
      ((Grammar.binder what inner).Same f) := by
  rintro before after twin bound ⟨found, middle, inside, ⟨isValue, passes⟩, reads, defines⟩ follows
  obtain ⟨passesAgain, midway⟩ := follows.passes passes
  obtain ⟨b, between, again, same, past⟩ := carries reads midway
  obtain ⟨defined, last, definesAgain, sameName, done⟩ :=
    past.defines defines (show (texts.moved found).name = found.name from rfl)
  exact ⟨(defined, b), last,
    ⟨texts.moved found, _, between, ⟨isValue, passesAgain⟩, again, definesAgain⟩,
    ⟨sameName, same⟩, done⟩

theorem carries_inScope (carries : texts.Carries (inner.Reads region) (inner.Same f)) :
    texts.Carries ((Grammar.inScope inner).Reads region) ((Grammar.inScope inner).Same f) := by
  rintro before _ twin a ⟨inside, reads, resolved, rfl⟩ follows
  obtain ⟨b, last, again, same, done⟩ := carries reads (follows.withTracker follows.similar.push)
  exact ⟨b, { last with tracker := last.tracker.pop.1 },
    ⟨last, again, done.similar.resolved resolved, rfl⟩, same,
    done.withTracker done.similar.pop⟩

/-! ## Grammars -/

/-- What a grammar reads of the first text it reads of the second one as well, and it is the same
but for its places. -/
theorem carries_grammar (regions : ∀ kind implicitTerminator,
      texts.Carries (region kind implicitTerminator) fun a b => f a = f b)
    (grammar : Grammar R α) (stable : grammar.Stable) :
    texts.Carries (grammar.Reads region) (grammar.Same f) := by
  induction grammar with
  | blank =>
    rintro before _ twin _ rfl follows
    exact ⟨(), twin, rfl, trivial, follows⟩
  | punct mark | word text =>
    rintro before after twin _ ⟨found, accepts, passes⟩ follows
    obtain ⟨again, done⟩ := follows.passes passes
    exact ⟨(), _, ⟨texts.moved found, accepts, again⟩, trivial, done⟩
  | lexeme kind what | oneOf words what =>
    apply Carries.token
    · exact fun _ accepted => accepted
    · exact fun _ => rfl
  | name kind =>
    intro before after twin used refers follows
    exact follows.refers refers
  | definition kind => exact carries_definition kind
  | type => exact Carries.type
  | attributeOf form => exact Carries.attributeOf form
  | namedAttribute => exact Carries.namedAttribute
  | trailingAttribute => exact Carries.trailingAttribute
  | seq first second ihFirst ihSecond => exact carries_seq (ihFirst stable.1) (ihSecond stable.2)
  | view as inner ih =>
    rintro before after twin _ ⟨a, reads, rfl⟩ follows
    obtain ⟨b, last, again, same, done⟩ := ih stable reads follows
    exact ⟨as.build b, last, ⟨b, again, rfl⟩, ⟨a, b, same, rfl, rfl⟩, done⟩
  | optional present inner ih => exact carries_optional present (ih stable)
  | choice isFirst first second ihFirst ihSecond =>
    exact carries_choice isFirst (ihFirst stable.1) (ihSecond stable.2)
  | separated item ih => exact Carries.separated (ih stable)
  | listed item ih => exact Carries.listed (ih stable)
  | listedWithEllipsis item ih => exact Carries.listedWithEllipsis (ih stable)
  | bracketed separator item ih =>
    rintro before after twin items ⟨opening, middle, ⟨isOpening, passes⟩, reads⟩ follows
    obtain ⟨passesAgain, midway⟩ := follows.passes passes
    obtain ⟨b, last, again, same, done⟩ := Carries.bracketed (ih stable) separator reads midway
    exact ⟨b, last, ⟨texts.moved opening, _, ⟨isOpening, passesAgain⟩, again⟩, same, done⟩
  | repeated next item ih => exact Carries.repeated (ih stable) next
  | modifierRun table =>
    obtain ⟨unplaced, stable⟩ := stable
    exact carries_modifierRun stable
  | spanned inner ih =>
    rintro before after twin found ⟨reads, place⟩ follows
    obtain ⟨b, last, again, same, done⟩ := ih stable reads follows
    exact ⟨(b, twin.cursor.spanBetween last.cursor), last, ⟨again, rfl⟩, same, done⟩
  | binder what inner ih => exact carries_binder what (ih stable)
  | inScope inner ih => exact carries_inScope (ih stable)
  | region kind implicitTerminator => exact regions kind implicitTerminator
  | recommended opcode warning inner ih => exact ih stable

end Relocation

end CirText
