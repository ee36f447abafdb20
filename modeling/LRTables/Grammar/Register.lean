import LRTables.Grammar.Draft
import LRTables.Ordered

/-!
# Registers

A register is a draft as it is kept in memory: maps from numbers to entries,
and the number that each kind of entry takes next.  Declarations change it in
place, step by step, so that one which is refused on the way might leave it
half changed.  In the end the goal rule is put in, the rules are put in order,
and an index of the rules of each nonterminal is made.
-/

namespace LRTables

structure Register where
  terminals : List (Nat × Terminal)
  nonterminals : List (Nat × String)
  rules : List (Nat × Rule)
  start : Option Nat
  expect : Option Nat
  nextTerminal : Nat
  nextNonterminal : Nat
  nextRule : Nat
  nextPriority : Nat
  deriving DecidableEq

/-- Steps that change a register and may be refused.  What was changed before
stays changed. -/
abbrev Registering := ExceptT GrammarError (StateM Register)

namespace Registering

variable {α β : Type} {register next : Register} {step : Registering α}
  {rest : α → Registering β} {error : GrammarError}

/-- The result of steps, and the register that they leave. -/
def exec (step : Registering α) (register : Register) :
    Except GrammarError α × Register :=
  step.run.run register

theorem exec_bind :
    exec (step >>= rest) register =
      StateT.run (ExceptT.bindCont rest (exec step register).1)
        (exec step register).2 :=
  rfl

theorem exec_bind_of_ok {value : α}
    (first : exec step register = (.ok value, next)) :
    exec (step >>= rest) register = exec (rest value) next := by
  rw [exec_bind, first]
  rfl

theorem exec_bind_of_error (first : exec step register = (.error error, next)) :
    exec (step >>= rest) register = (.error error, next) := by
  rw [exec_bind, first]
  rfl

@[simp] theorem exec_pure {value : α} :
    exec (pure value) register = (.ok value, register) :=
  rfl

@[simp] theorem exec_get_bind {rest : Register → Registering β} :
    exec (get >>= rest) register = exec (rest register) register :=
  rfl

@[simp] theorem exec_modify_bind {change : Register → Register}
    {rest : PUnit → Registering β} :
    exec (modify change >>= rest) register =
      exec (rest ⟨⟩) (change register) :=
  rfl

@[simp] theorem exec_throw_bind :
    exec ((throw error : Registering α) >>= rest) register =
      (.error error, register) :=
  rfl

@[simp] theorem exec_ite {condition : Prop} [Decidable condition]
    {other : Registering α} :
    exec (if condition then step else other) register =
      if condition then exec step register else exec other register := by
  split
  · rfl
  · rfl

end Registering

/-- The results of declarations, whether refused or not, and the state that
they leave, given what an attempt at one of them does. -/
def attemptEach {State : Type}
    (attempt : State → Declaration → Except GrammarError Declared × State)
    (state : State) :
    List Declaration → List (Except GrammarError Declared) × State
  | [] => ([], state)
  | declaration :: rest =>
    let (result, next) := attempt state declaration
    let (results, last) := attemptEach attempt next rest
    (result :: results, last)

theorem attemptEach_cons {State : Type}
    {attempt : State → Declaration → Except GrammarError Declared × State}
    {state : State} {declaration : Declaration} {rest : List Declaration} :
    attemptEach attempt state (declaration :: rest) =
      ((attempt state declaration).1 ::
          (attemptEach attempt (attempt state declaration).2 rest).1,
        (attemptEach attempt (attempt state declaration).2 rest).2) :=
  rfl

namespace Register

def empty : Register :=
  { terminals :=
      [(Terminal.endOfInput,
          { name := "$end", precedence := none, quoted := false }),
        (Terminal.errorToken,
          { name := "error", precedence := none, quoted := false })]
    nonterminals := [(goalSymbol, "$accept")]
    rules := []
    start := none
    expect := none
    nextTerminal := 2
    nextNonterminal := 1
    nextRule := 1
    nextPriority := 0 }

def symbolText (register : Register) : Symbol → String
  | .terminal index =>
    (Ordered.find? register.terminals index).elim "" Terminal.text
  | .nonterminal index =>
    (Ordered.find? register.nonterminals index).getD ""

/-- The number after a number, if it is one. -/
def following (kind : Numbered) (number : Nat) : Registering Nat :=
  if number < Draft.numberLimit then return number + 1
  else throw (.tooMany kind)

def checkUnique (name : String) : Registering Unit := do
  let register ← get
  if register.terminals.any (·.2.name == name) ||
      register.nonterminals.any (·.2 == name) then
    throw (.duplicateSymbol name)

def addTerminal (name : String) (precedence : Option Precedence)
    (quoted : Bool) : Registering Nat := do
  checkUnique name
  let number := (← get).nextTerminal
  let next ← following .terminals number
  modify fun register => { register with nextTerminal := next }
  modify fun register =>
    { register with
      terminals := Ordered.put register.terminals number
        { name, precedence, quoted } }
  return number

def addNamed [Alphabet] (name : String) (precedence : Option Precedence) :
    Registering Nat := do
  if !Name.isName name then throw (.invalidName name)
  addTerminal name precedence false

def addQuoted (literal : String) (precedence : Option Precedence) :
    Registering Nat := do
  if literal.isEmpty then throw .emptyQuotedToken
  addTerminal literal precedence true

def addNonterminal [Alphabet] (name : String) : Registering Nat := do
  if !Name.isName name then throw (.invalidName name)
  checkUnique name
  let number := (← get).nextNonterminal
  let next ← following .nonterminals number
  modify fun register => { register with nextNonterminal := next }
  modify fun register =>
    { register with
      nonterminals := Ordered.put register.nonterminals number name }
  return number

def addLevel (associativity : Associativity) : Registering Precedence := do
  let priority := (← get).nextPriority
  modify fun register =>
    { register with nextPriority := min (priority + 1) Draft.maxPriority }
  return { priority, associativity }

def resolveOverride : Option String → Registering (Option Nat)
  | none => return none
  | some name => do
    match (← get).terminals.find? (·.2.name == name) with
    | some (number, _) => return some number
    | none => throw (.undeclaredPrecedence name)

def addRule (left : Nat) (right : List Symbol) (override : Option String) :
    Registering Nat := do
  let override ← resolveOverride override
  let register ← get
  if register.rules.any fun entry =>
      entry.2.left == left && entry.2.right == right then
    let sides := register.symbolText (.nonterminal left) ::
      right.map register.symbolText
    throw (.duplicateRule (" ".intercalate sides))
  let number := register.nextRule
  let next ← following .rules number
  modify fun register => { register with nextRule := next }
  modify fun register =>
    { register with
      rules := Ordered.put register.rules number
        { left, right, override, hasCode := false } }
  return number

def markCode (number : Nat) : Registering Unit :=
  modify fun register =>
    { register with
      rules := register.rules.map fun entry =>
        if entry.1 = number then (entry.1, { entry.2 with hasCode := true })
        else entry }

/-- Carry out one declaration in place. -/
def carryOut [Alphabet] : Declaration → Registering Declared
  | .precedence associativity => return .level (← addLevel associativity)
  | .terminal name precedence => return .number (← addNamed name precedence)
  | .quoted literal precedence =>
    return .number (← addQuoted literal precedence)
  | .nonterminal name => return .number (← addNonterminal name)
  | .rule left right override =>
    return .number (← addRule left right override)
  | .code rule => do
    markCode rule
    return .done
  | .start nonterminal => do
    modify fun register => { register with start := some nonterminal }
    return .done
  | .expect count => do
    modify fun register => { register with expect := some count }
    return .done

/-- The result of a declaration, and the register it leaves. -/
def attempt [Alphabet] (register : Register) (declaration : Declaration) :
    Except GrammarError Declared × Register :=
  (carryOut declaration).exec register

/-- Attempt declarations one after the other. -/
def attemptAll [Alphabet] (register : Register)
    (declarations : List Declaration) :
    List (Except GrammarError Declared) × Register :=
  attemptEach attempt register declarations

end Register

/-- A finished grammar as it is kept in memory. -/
structure Registered where
  terminals : List (Nat × Terminal)
  nonterminals : List (Nat × String)
  rules : List (Nat × Rule)
  /-- The rules of each nonterminal that has any. -/
  rulesByLeft : List (Nat × List Nat)
  start : Nat
  expect : Option Nat
  deriving DecidableEq

namespace Registered

/-- The entries without their numbers. -/
def grammar (registered : Registered) : Grammar :=
  { terminals := (registered.terminals.map Prod.snd).toArray
    nonterminals := (registered.nonterminals.map Prod.snd).toArray
    rules := (registered.rules.map Prod.snd).toArray
    start := registered.start
    expect := registered.expect }

/-- An index of rules by their left-hand sides. -/
def indexRules (rules : List (Nat × Rule)) : List (Nat × List Nat) :=
  rules.foldl
    (fun index entry =>
      Ordered.update index entry.2.left [] fun numbers =>
        numbers ++ [entry.1])
    []

def rulesOf (registered : Registered) (nonterminal : Nat) : List Nat :=
  (Ordered.find? registered.rulesByLeft nonterminal).getD []

/-- The first nonterminal, in order of rules, that is used but has no rule. -/
def firstUndefined? (registered : Registered) : Option Nat :=
  (registered.rules.flatMap (·.2.right)).findSome? fun symbol =>
    match symbol with
    | .terminal _ => none
    | .nonterminal index =>
      if (registered.rulesByLeft.map Prod.fst).contains index then none
      else some index

def columnCount (registered : Registered) : Nat :=
  registered.terminals.length + registered.nonterminals.length - 1

def columns (registered : Registered) : List Symbol :=
  registered.terminals.map (.terminal ·.1) ++
    ((registered.nonterminals.map Prod.fst).filter (· != goalSymbol)).map
      .nonterminal

def columnOf (registered : Registered) : Symbol → Option Nat
  | .terminal index => some index
  | .nonterminal index =>
    if index = goalSymbol then none
    else some (registered.terminals.length + index - 1)

end Registered

namespace Register

/-- The declared start symbol, or else the first nonterminal but the goal
symbol. -/
def startSymbol? (register : Register) : Option Nat :=
  register.start <|>
    (register.nonterminals.map Prod.fst).find? (· != goalSymbol)

/-- Put the goal rule in and the rules in order. -/
def orderedRules (register : Register) (start : Nat) : List (Nat × Rule) :=
  let rules := Ordered.put register.rules goalRule
    { left := goalSymbol
      right := [.nonterminal start]
      override := none
      hasCode := false }
  rules.mergeSort fun one other => decide (one.1 ≤ other.1)

/-- The grammar of a register, before it is checked. -/
def toRegistered (register : Register) (start : Nat) : Registered :=
  let rules := register.orderedRules start
  { terminals := register.terminals
    nonterminals := register.nonterminals
    rules
    rulesByLeft := Registered.indexRules rules
    start
    expect := register.expect }

/-- Check a register and close it. -/
def finish (register : Register) : Except GrammarError Registered :=
  match register.startSymbol? with
  | none => .error .noNonterminals
  | some start =>
    let registered := register.toRegistered start
    match registered.firstUndefined? with
    | some nonterminal =>
      .error (.undefinedNonterminal
        (register.symbolText (.nonterminal nonterminal)))
    | none =>
      if registered.grammar.productives.getD start false then .ok registered
      else
        .error (.unproductiveStart (register.symbolText (.nonterminal start)))

end Register

end LRTables
