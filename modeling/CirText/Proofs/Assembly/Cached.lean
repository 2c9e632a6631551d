import Mathlib.Data.PFun
import CirText.Proofs.Assembly.Basic

/-!
# Parsing with caches

Parsers that keep the types and attributes that have been read, by the place at which these start.
What is found in a cache is not read again: the cursor moves to where reading has ended the first
time. Loops are plain ones that nothing keeps from running forever, so that such a parser need not
come to an end.
-/

namespace CirText

/-- What has been read by where it starts, with the number of tokens before the place behind it. The
last one comes first. -/
abbrev Cache (κ α : Type) :=
  List (κ × α × Nat)

/-- The caches of a parser. -/
structure Caches where
  /-- The types by the number of tokens before them. -/
  types : Cache Nat TypeText := []
  /-- The attributes by the number of tokens before them and the form in which they were read. -/
  attributes : Cache (Nat × AttributeForm) AttributeText := []

/-- A parser with caches, which need not come to an end. -/
def Cached (α : Type) : Type :=
  Parser.Input → Parser.State × Caches → Part (Option α × Parser.State × Caches)

namespace Cached

variable {α β σ κ : Type}

instance : Monad Cached where
  pure a := fun _ state => .some (some a, state)
  bind parser next := fun input state =>
    (parser input state).bind fun
      | (some a, state) => next a input state
      | (none, state) => .some (none, state)

section Binds

variable {parser : Cached α} {next : α → Cached β} {input : Parser.Input}
    {state after : Parser.State × Caches}

theorem bind_of_some {a : α} (run : parser input state = .some (some a, after)) :
    (parser >>= next) input state = next a input after := by
  change (parser input state).bind _ = _
  rw [run, Part.bind_some]

theorem bind_of_none (run : parser input state = .some (none, after)) :
    (parser >>= next) input state = .some (none, after) := by
  change (parser input state).bind _ = _
  rw [run, Part.bind_some]

end Binds

/-- A parser that makes no use of the caches. -/
def ofParser (parser : Parser α) : Cached α :=
  fun input (state, caches) =>
    let (result, state) := parser input state
    .some (result, state, caches)

/-- Runs a parser and goes on in any case. -/
def attempt (parser : Cached α) : Cached (Option α) :=
  fun input state => (parser input state).map fun (result, state) => (some result, state)

/-- Runs a parser with another construct to be named in messages. -/
def naming (construct : String) (parser : Cached α) : Cached α :=
  fun input (state, caches) =>
    (parser input ({ state with construct }, caches)).map fun (result, final, caches) =>
      (result, { final with construct := state.construct }, caches)

/-- Runs a parser in a new scope, which is closed again even if the parser fails. -/
def inScope (parser : Cached α) : Cached α :=
  fun input (state, caches) =>
    (parser input ({ state with tracker := state.tracker.push }, caches)).map
      fun (result, state, caches) =>
      let (tracker, unresolved) := state.tracker.pop
      (result, { state with
        tracker, diagnostics := state.diagnostics.append (unresolved.map .ofUnresolved) }, caches)

/-- What a loop does with the outcome of a step: it ends, or it takes another step. -/
def afterStep : Option (Parser.Step σ β) × Parser.State × Caches →
    (Option β × Parser.State × Caches) ⊕ (σ × Parser.State × Caches)
  | (none, state) => .inl (none, state)
  | (some (.done result), state) => .inl (some result, state)
  | (some (.again accumulated), state) => .inr (accumulated, state)

/-- Repeats a step until it is done, whether the steps consume tokens or not. -/
def iterate (step : σ → Cached (Parser.Step σ β)) (accumulated : σ) : Cached β :=
  fun input state =>
    PFun.fix (fun (accumulated, state) => (step accumulated input state).map afterStep)
      (accumulated, state)

section Loops

variable {step : σ → Cached (Parser.Step σ β)} {accumulated : σ} {input : Parser.Input}
  {state : Parser.State × Caches} {outcome : Option (Parser.Step σ β) × Parser.State × Caches}

theorem iterate_of_inl {last : Option β × Parser.State × Caches}
    (run : step accumulated input state = .some outcome)
    (ends : afterStep outcome = .inl last) : iterate step accumulated input state = .some last := by
  refine Part.eq_some_iff.2 (PFun.fix_stop ?_)
  dsimp only
  rw [run, Part.map_some, ends]
  exact Part.mem_some _

theorem iterate_of_inr {further : σ} {next : Parser.State × Caches}
    (run : step accumulated input state = .some outcome)
    (goesOn : afterStep outcome = .inr (further, next)) :
    iterate step accumulated input state = iterate step further input next := by
  refine PFun.fix_fwd_eq ?_
  dsimp only
  rw [run, Part.map_some, goesOn]
  exact Part.mem_some _

end Loops

/-- Takes what starts at the next token from a cache. If it is not there, it is read, and added to
the cache if it could be read. -/
def reuse [BEq κ] (cache : Caches → Cache κ α) (update : Caches → Cache κ α → Caches)
    (key : Nat → κ) (parser : Parser α) : Cached α :=
  fun input (state, caches) =>
    let start := state.cursor.position
    match (cache caches).lookup (key start) with
    | some (found, stop) =>
      .some (some found, { state with cursor := state.cursor.advance (stop - start) }, caches)
    | none =>
      match parser input state with
      | (some found, after) =>
        .some (some found, after,
          update caches ((key start, found, after.cursor.position) :: cache caches))
      | (none, after) => .some (none, after, caches)

section Misses

variable [BEq κ] {cache : Caches → Cache κ α} {update : Caches → Cache κ α → Caches} {key : Nat → κ}
  {parser : Parser α} {input : Parser.Input} {state after : Parser.State} {caches : Caches}
  (fresh : (cache caches).lookup (key state.cursor.position) = none)

include fresh

theorem reuse_of_some {found : α} (run : parser input state = (some found, after)) :
    reuse cache update key parser input (state, caches) = .some (some found, after,
      update caches ((key state.cursor.position, found, after.cursor.position) ::
        cache caches)) := by
  simp only [reuse, fresh, run]

theorem reuse_of_none (run : parser input state = (none, after)) :
    reuse cache update key parser input (state, caches) = .some (none, after, caches) := by
  simp only [reuse, fresh, run]

end Misses

/-- Reads a type. -/
def type : Cached TypeText :=
  reuse (·.types) (fun caches types => { caches with types }) id Parser.type

/-- Reads an attribute of a form. -/
def attributeOf (form : AttributeForm) : Cached AttributeText :=
  reuse (·.attributes) (fun caches attributes => { caches with attributes }) (·, form)
    (Parser.attributeOf form)

instance : Assembles Cached where
  part := ofParser
  attempt := attempt
  naming := naming
  inScope := inScope
  iterate := iterate
  type := type
  attributeOf := attributeOf

end Cached

end CirText
