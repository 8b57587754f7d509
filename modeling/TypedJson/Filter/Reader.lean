import TypedJson.Filter.Evaluation
import TypedJson.Filter.Token
/-!
# Reading a filter

The grammar of filters over their tokens.  What is read is a `Draft`: a filter
together with the names in it that nothing defines.  Operators are read as a flat row
of operands first, and `Draft.assemble` then groups them by how tightly they bind.
-/
namespace TypedJson
namespace Filter

/-- A filter and the undefined names that its text calls for, in order. -/
structure Draft where
  filter : Filter
  undefined : List String

instance : Inhabited Draft := ⟨⟨.nothing, []⟩⟩

namespace Draft

def ofFilter (f : Filter) : Draft := ⟨f, []⟩

def text (s : String) : Draft := ofFilter (.constant (.string s))

def map (f : Filter → Filter) (a : Draft) : Draft := ⟨f a.filter, a.undefined⟩

def map₂ (f : Filter → Filter → Filter) (a b : Draft) : Draft :=
  ⟨f a.filter b.filter, a.undefined ++ b.undefined⟩

def both (a b : Draft) : Draft := map₂ .both a b

def add (a b : Draft) : Draft := map₂ (.arithmetic .add) a b

/-- The names of the last branch come first. -/
def conditional (condition yes no : Draft) : Draft :=
  ⟨.conditional condition.filter yes.filter no.filter,
    no.undefined ++ condition.undefined ++ yes.undefined⟩

/-- The member of that name of the input, under the same name. -/
def shorthand (name : Draft) : Draft :=
  name.map fun f => .member f (.path .identity [.index f false])

end Draft

/-! ## Names -/

def constant? (name : String) : Option Value :=
  match name with
  | "null" => some .null
  | "true" => some (.bool true)
  | "false" => some (.bool false)
  | _ => none

def function? (name : String) : Option Function :=
  match name with
  | "error" => some .raise
  | "length" => some .length
  | "keys" => some .keys
  | "sort" => some .sort
  | "type" => some .typeName
  | "tostring" => some .toText
  | "tonumber" => some .toNumber
  | _ => none

def eachItem : Filter := .path .identity [.each false]

/-- What a name stands for with so many arguments. -/
def named? (name : String) (args : List Filter) : Option Filter :=
  match name, args with
  | "empty", [] => some .nothing
  | "not", [] => some (.conditional .identity (.constant (.bool false)) (.constant (.bool true)))
  | "add", [] => some (.sum eachItem)
  | "first", [] => some (.path .identity [.index (.constant (.int 0)) false])
  | name, [] => ((constant? name).map .constant).or ((function? name).map .apply)
  | "error", [f] => some (.pipe f (.apply .raise))
  | "has", [f] => some (.has f)
  | "map", [f] => some (.collect (.pipe eachItem f))
  | "select", [f] => some (.conditional f .identity .nothing)
  | "add", [f] => some (.sum f)
  | "first", [f] => some (.first f)
  | "range", [stop] => some (.range (.constant (.int 0)) stop (.constant (.int 1)))
  | "range", [start, stop] => some (.range start stop (.constant (.int 1)))
  | "range", [start, stop, step] => some (.range start stop step)
  | _, _ => none

def Draft.call (name : String) (args : List Draft) : Draft :=
  let undefined := args.flatMap (·.undefined)
  match named? name (args.map (·.filter)) with
  | some f => ⟨f, undefined⟩
  | none => ⟨.nothing, undefined ++ [name]⟩

/-- The words that no function can be called. -/
def reservedWords : List String :=
  ["include", "import", "def", "as", "label", "break", "reduce", "foreach", "if", "then", "elif",
    "else", "end", "try", "catch", "and", "or"]

/-! ## Operators -/

inductive Operator
  | pipe
  | comma
  | alternative
  | logic (decisive : Bool)
  | comparison (op : Comparison)
  | arithmetic (op : ArithmeticOp)

namespace Operator

/-- How tightly an operator binds. -/
def level : Operator → Nat
  | .pipe => 0
  | .comma => 1
  | .alternative => 2
  | .logic true => 3
  | .logic false => 4
  | .comparison _ => 5
  | .arithmetic .add | .arithmetic .sub => 6
  | .arithmetic .mul | .arithmetic .div => 7
  | .arithmetic .rem => 8

def form : Operator → Filter → Filter → Filter
  | .pipe => .pipe
  | .comma => .both
  | .alternative => .alternative
  | .logic decisive => .logic decisive
  | .comparison op => .comparison op
  | .arithmetic op => .arithmetic op

def ofSymbol? : String → Option Operator
  | "|" => some .pipe
  | "," => some .comma
  | "//" => some .alternative
  | "==" => some (.comparison .eq)
  | "!=" => some (.comparison .ne)
  | "<" => some (.comparison .lt)
  | "<=" => some (.comparison .le)
  | ">" => some (.comparison .gt)
  | ">=" => some (.comparison .ge)
  | "+" => some (.arithmetic .add)
  | "-" => some (.arithmetic .sub)
  | "*" => some (.arithmetic .mul)
  | "/" => some (.arithmetic .div)
  | "%" => some (.arithmetic .rem)
  | _ => none

def ofToken? : Token → Option Operator
  | .symbol s => ofSymbol? s
  | .word "or" => some (.logic true)
  | .word "and" => some (.logic false)
  | _ => none

end Operator

abbrev OperatorRow := List (Operator × Draft)

/-- Cuts a row at the operators of one level: the operands in front, then each such
operator with its operand and what binds more tightly to that. -/
def cutRow (level : Nat) : OperatorRow → OperatorRow × List (Operator × Draft × OperatorRow)
  | [] => ([], [])
  | (op, operand) :: rest =>
    let (front, cuts) := cutRow level rest
    if op.level = level then ([], (op, operand, front) :: cuts)
    else ((op, operand) :: front, cuts)

/-- Groups a row of operands, the loosest of the given levels first, from left to right. -/
def Draft.assemble : List Nat → Draft → OperatorRow → Draft
  | [], head, _ => head
  | level :: tighter, head, row =>
    let (front, cuts) := cutRow level row
    cuts.foldl
      (fun left (op, operand, more) => Draft.map₂ op.form left (assemble tighter operand more))
      (assemble tighter head front)

/-! ## Grammar -/

/-- What the grammar asks for. -/
inductive Wanted
  | term
  | key
  | exactly (text : String)
  | nothing

def Wanted.text : Wanted → String
  | .term => "Term"
  | .key => "Key"
  | .exactly t => "Just(" ++ Text.quotedPrintable t ++ ")"
  | .nothing => "Nothing"

/-- Something else stands where the grammar asks for something; nothing at the end. -/
structure GrammarFault where
  wanted : Wanted
  found : Option Token

def Token.shortText : Token → String
  | .word n => n
  | .variable n => n
  | .numeral d => d
  | .symbol s => s
  | .field n => "." ++ n
  | .text _ => "\""
  | .group c _ => String.singleton c

def GrammarFault.message (f : GrammarFault) : String :=
  "(" ++ f.wanted.text ++ ", " ++ Text.quotedPrintable ((f.found.map (·.shortText)).getD "") ++ ")"

namespace Draft

/-! A reader takes a part of the grammar off the front of the tokens and hands back the
tokens behind it; each call within another has less fuel. -/

def missing (wanted : Wanted) (tokens : List Token) : Except GrammarFault α :=
  .error ⟨wanted, tokens.head?⟩

/-- Question marks, if there are any. -/
def optionalMark : List Token → Bool × List Token
  | .symbol "?" :: rest => (true, (optionalMark rest).2)
  | tokens => (false, tokens)

def expect (word : String) : List Token → Except GrammarFault (List Token)
  | .word w :: rest => if w = word then .ok rest else missing (.exactly word) (.word w :: rest)
  | tokens => missing (.exactly word) tokens

mutual

/-- Operands with operators between them.  Inside an object a comma ends the value. -/
def expression : Nat → Bool → List Token → Except GrammarFault (Draft × List Token)
  | 0, _, tokens => missing .term tokens
  | fuel + 1, commas, tokens => do
    let (head, tokens) ← operand fuel tokens
    let (row, tokens) ← operatorRow fuel commas tokens
    pure (assemble [0, 1, 2, 3, 4, 5, 6, 7, 8] head row, tokens)

def operatorRow : Nat → Bool → List Token → Except GrammarFault (OperatorRow × List Token)
  | 0, _, tokens => missing .term tokens
  | fuel + 1, commas, tokens =>
    match tokens with
    | [] => pure ([], [])
    | t :: rest =>
      match Operator.ofToken? t with
      | none => pure ([], tokens)
      | some .comma =>
        if commas then operatorStep fuel commas .comma rest else pure ([], tokens)
      | some op => operatorStep fuel commas op rest

def operatorStep : Nat → Bool → Operator → List Token → Except GrammarFault (OperatorRow × List Token)
  | 0, _, _, tokens => missing .term tokens
  | fuel + 1, commas, op, tokens => do
    let (head, tokens) ← operand fuel tokens
    let (row, tokens) ← operatorRow fuel commas tokens
    pure ((op, head) :: row, tokens)

/-- All of the tokens as one expression. -/
def whole : Nat → List Token → Except GrammarFault Draft
  | 0, tokens => missing .term tokens
  | fuel + 1, tokens => do
    match ← expression fuel true tokens with
    | (draft, []) => pure draft
    | (_, rest) => missing .nothing rest

def operand : Nat → List Token → Except GrammarFault (Draft × List Token)
  | 0, tokens => missing .term tokens
  | fuel + 1, tokens =>
    match tokens with
    | .symbol "-" :: rest => do
      let (draft, rest) ← operand fuel rest
      pure (draft.map .negate, rest)
    | .field _ :: _ => pathFrom fuel (.ofFilter .identity) tokens
    | .symbol "." :: .text _ :: _ => pathFrom fuel (.ofFilter .identity) tokens
    | _ => do
      let (draft, rest) ← atom fuel tokens
      let (optional, rest) := optionalMark rest
      pathFrom fuel (if optional then draft.map .attempt else draft) rest

/-- An operand without what may follow it. -/
def atom : Nat → List Token → Except GrammarFault (Draft × List Token)
  | 0, tokens => missing .term tokens
  | fuel + 1, tokens =>
    match tokens with
    | .symbol "." :: rest => pure (.ofFilter .identity, rest)
    | .numeral digits :: rest =>
      pure (.ofFilter (.constant (.number (.ofNumeral digits))), rest)
    | .text parts :: rest => do pure (← textParts fuel parts, rest)
    | .variable name :: rest => pure (⟨.nothing, [name]⟩, rest)
    | .word "if" :: rest => branches fuel rest
    | .word name :: rest =>
      if reservedWords.contains name then missing .term tokens
      else
        match rest with
        | .group '(' inner :: rest => do pure (call name (← arguments fuel inner), rest)
        | _ => pure (call name [], rest)
    | .group '(' inner :: rest => do pure (← whole fuel inner, rest)
    | .group '[' [] :: rest => pure (.ofFilter (.constant (.array [])), rest)
    | .group '[' inner :: rest => do pure ((← whole fuel inner).map .collect, rest)
    | .group _ [] :: rest => pure (.ofFilter (.constant (.object [])), rest)
    | .group _ inner :: rest => do pure (← members fuel inner, rest)
    | _ => missing .term tokens

/-- A condition with its branches, behind `if` or `elif`. -/
def branches : Nat → List Token → Except GrammarFault (Draft × List Token)
  | 0, tokens => missing .term tokens
  | fuel + 1, tokens => do
    let (condition, tokens) ← expression fuel true tokens
    let (yes, tokens) ← expression fuel true (← expect "then" tokens)
    match tokens with
    | .word "elif" :: rest =>
      let (no, rest) ← branches fuel rest
      pure (conditional condition yes no, rest)
    | .word "else" :: rest =>
      let (no, rest) ← expression fuel true rest
      pure (conditional condition yes no, ← expect "end" rest)
    | tokens => pure (conditional condition yes (.ofFilter .identity), ← expect "end" tokens)

/-- Arguments between semicolons. -/
def arguments : Nat → List Token → Except GrammarFault (List Draft)
  | 0, tokens => missing .term tokens
  | fuel + 1, tokens => do
    match ← expression fuel true tokens with
    | (arg, []) => pure [arg]
    | (arg, .symbol ";" :: rest) => do pure (arg :: (← arguments fuel rest))
    | (_, rest) => missing .nothing rest

/-- A text is the sum of its parts. -/
def textParts : Nat → List TextPart → Except GrammarFault Draft
  | 0, _ => missing .term []
  | fuel + 1, parts => do
    let drafts ← partDrafts fuel parts
    match drafts with
    | [] => pure (text "")
    | head :: others => pure (others.foldl add head)

def partDrafts : Nat → List TextPart → Except GrammarFault (List Draft)
  | 0, _ => missing .term []
  | _ + 1, [] => pure []
  | fuel + 1, .plain s :: rest => do pure (text s :: (← partDrafts fuel rest))
  | fuel + 1, .inserted tokens :: rest => do
    let inner ← whole fuel tokens
    pure (inner.map (.pipe · (.apply .toText)) :: (← partDrafts fuel rest))

/-- The members of an object, of which there is at least one; the object is their sum. -/
def members : Nat → List Token → Except GrammarFault Draft
  | 0, tokens => missing .key tokens
  | fuel + 1, tokens => do
    let (head, rest) ← member fuel tokens
    moreMembers fuel head rest

def moreMembers : Nat → Draft → List Token → Except GrammarFault Draft
  | 0, _, tokens => missing .key tokens
  | _ + 1, read, [] => pure read
  | fuel + 1, read, .symbol "," :: rest => do
    let (next, rest) ← member fuel rest
    moreMembers fuel (add read next) rest
  | _ + 1, _, tokens => missing (.exactly ",") tokens

def member : Nat → List Token → Except GrammarFault (Draft × List Token)
  | 0, tokens => missing .key tokens
  | fuel + 1, tokens =>
    match tokens with
    | .group '(' inner :: .symbol ":" :: rest => do
      let name ← whole fuel inner
      let (value, rest) ← expression fuel false rest
      pure (map₂ .member name value, rest)
    | .group '(' _ :: rest => missing (.exactly ":") rest
    | .variable name :: .symbol ":" :: rest => do
      let (value, rest) ← expression fuel false rest
      pure (map₂ .member ⟨.nothing, [name]⟩ value, rest)
    | .variable name :: rest => pure (⟨.nothing, [name]⟩, rest)
    | .word name :: .symbol ":" :: rest => do
      let (value, rest) ← expression fuel false rest
      pure (map₂ .member (text name) value, rest)
    | .word name :: rest => pure ((text name).shorthand, rest)
    | .text parts :: .symbol ":" :: rest => do
      let name ← textParts fuel parts
      let (value, rest) ← expression fuel false rest
      pure (map₂ .member name value, rest)
    | .text parts :: rest => do pure ((← textParts fuel parts).shorthand, rest)
    | tokens => missing .key tokens

/-- The steps that follow an operand, if any. -/
def pathFrom : Nat → Draft → List Token → Except GrammarFault (Draft × List Token)
  | 0, _, tokens => missing .term tokens
  | fuel + 1, root, tokens => do
    match ← pathSteps fuel tokens with
    | ([], rest) => pure (root, rest)
    | (steps, rest) =>
      pure (⟨.path root.filter (steps.map (·.1)), root.undefined ++ steps.flatMap (·.2)⟩, rest)

/-- Each step with its undefined names. -/
def pathSteps : Nat → List Token → Except GrammarFault (List (FilterStep × List String) × List Token)
  | 0, tokens => missing .term tokens
  | fuel + 1, tokens => do
    let step? ← pathStep fuel tokens
    match step? with
    | none => pure ([], tokens)
    | some (step, undefined, rest) =>
      let (optional, rest) := optionalMark rest
      let (steps, rest) ← pathSteps fuel rest
      pure ((step optional, undefined) :: steps, rest)

def pathStep : Nat → List Token →
    Except GrammarFault (Option ((Bool → FilterStep) × List String × List Token))
  | 0, tokens => missing .term tokens
  | fuel + 1, tokens =>
    match tokens with
    | .field name :: rest => pure (some (.index (.constant (.string name)), [], rest))
    | .symbol "." :: .text parts :: rest => do
      let name ← textParts fuel parts
      pure (some (.index name.filter, name.undefined, rest))
    | .symbol "." :: .group '[' inner :: rest
    | .group '[' inner :: rest => do
      let (step, undefined) ← bracketStep fuel inner
      pure (some (step, undefined, rest))
    | _ => pure none

/-- What stands between the brackets of a step. -/
def bracketStep : Nat → List Token → Except GrammarFault ((Bool → FilterStep) × List String)
  | 0, tokens => missing .term tokens
  | fuel + 1, tokens =>
    match tokens with
    | [] => pure (.each, [])
    | .symbol ":" :: rest => do
      let stop ← whole fuel rest
      pure (.slice none (some stop.filter), stop.undefined)
    | tokens => do
      match ← expression fuel true tokens with
      | (key, []) => pure (.index key.filter, key.undefined)
      | (start, [.symbol ":"]) => pure (.slice (some start.filter) none, start.undefined)
      | (start, .symbol ":" :: rest) => do
        let stop ← whole fuel rest
        pure (.slice (some start.filter) (some stop.filter), start.undefined ++ stop.undefined)
      | (_, rest) => missing .nothing rest

end

end Draft

/-! ## Filters from their text -/

/-- Why a text is no filter. -/
inductive ReadFault
  | tokens (faults : List TokenFault)
  | grammar (fault : GrammarFault)
  | undefined (names : List String)

def ReadFault.message (source : String) : ReadFault → String
  | .tokens faults =>
    "cannot parse jq expression `" ++ source ++ "`: Lex([" ++
      String.intercalate ", " (faults.map (·.message)) ++ "])"
  | .grammar fault =>
    "cannot parse jq expression `" ++ source ++ "`: Parse([" ++ fault.message ++ "])"
  | .undefined names =>
    "undefined in jq expression `" ++ source ++ "`: " ++ String.intercalate ", " names

/-- Every character makes at most one token, and reading a token goes at most eight
definitions deep. -/
def ofText (text : String) : Except ReadFault Filter :=
  match Token.ofText text with
  | .error faults => .error (.tokens faults)
  | .ok tokens =>
    match Draft.whole (8 * text.length + 8) tokens with
    | .error fault => .error (.grammar fault)
    | .ok ⟨filter, []⟩ => .ok filter
    | .ok ⟨_, names⟩ => .error (.undefined names)

/-- What goes wrong when a text is run as a filter. -/
inductive RunFault
  | unreadable (fault : ReadFault)
  | failed (position : Nat) (failure : Failure)

def RunFault.message (source : String) : RunFault → String
  | .unreadable fault => fault.message source
  | .failed n failure => "jq output #" ++ toString n ++ " failed: " ++ failure.message

def runText (source : String) (input : Json) : Except RunFault (List Json) :=
  match ofText source with
  | .error fault => .error (.unreadable fault)
  | .ok filter =>
    match filter.outputs input with
    | .ok values => .ok values
    | .error (n, failure) => .error (.failed n failure)

end Filter
end TypedJson
