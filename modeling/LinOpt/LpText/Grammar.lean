import LinOpt.LpText.Document
import LinOpt.LpText.Mismatch
import LinOpt.LpText.Name
import LinOpt.LpText.Pattern
import LinOpt.Number.Numeral

namespace LinOpt.LpText

open Pattern

namespace Grammar

def comment : Pattern Unit :=
  rule (token scanComment)

def filler : Pattern Unit :=
  rule (either (token scanBlanks) comment)

def blanks : Pattern Unit :=
  rule (replaced () (many filler))

def lexeme (p : Pattern α) : Pattern α :=
  before p blanks

def literal (text : String) : Pattern Unit :=
  token (scanText text.toList)

def oneOf (text : String) (value : α) : List (String × α) → Pattern α
  | [] => replaced value (literal text)
  | (text', value') :: rest => either (replaced value (literal text)) (oneOf text' value' rest)

def keyword (words : List String) : Pattern String :=
  rule (token (scanKeyword words))

def subjectKeyword : Pattern String := keyword subjectWords

def boundsKeyword : Pattern String := keyword boundWords

def generalsKeyword : Pattern String := keyword generalWords

def binariesKeyword : Pattern String := keyword binaryWords

def endKeyword : Pattern String := keyword endWords

def freeKeyword : Pattern String := keyword freeWords

def reserved : Pattern String :=
  rule (either subjectKeyword (either boundsKeyword (either generalsKeyword
    (either binariesKeyword endKeyword))))

def variableName : Pattern String :=
  rule (after (.unless reserved) (token scanName))

def sign : Pattern Bool :=
  rule (oneOf "+" false [("-", true)])

/-- A digit's value; one that is not known counts as zero. -/
def digit? (c : Char) : Option Nat :=
  Text.digitValue? c <|> (if Text.isNewDigit c then some 0 else none)

def number : Pattern Binary64 :=
  rule (map (Binary64.ofDecimal false) (token (Numeral.scan digit?)))

def signedBy (negative : Option Bool) (x : Binary64) : Binary64 :=
  if negative.getD false then x.neg else x

def signedNumber : Pattern Binary64 :=
  rule (map (fun (s, x) => signedBy s x) (pair (lexeme (maybe sign)) number))

def label : Pattern String :=
  rule (before (lexeme variableName) (lexeme (literal ":")))

def square : Pattern (Option String) :=
  rule (replaced none (pair (lexeme (literal "^")) (lexeme (literal "2"))))

def product : Pattern (Option String) :=
  rule (map some (after (lexeme (literal "*")) (lexeme variableName)))

/-- The second factor, if it is not the first one again. -/
def secondFactor : Pattern (Option String) :=
  rule (either product square)

def leadingCoefficient : Pattern Binary64 :=
  rule (lexeme number)

def quadraticSummand (negative : Option Bool) (c : Option Binary64) (x : String)
    (y : Option String) : Summand :=
  .quadratic (signedBy negative (c.getD (Binary64.ofInt 1))) x (y.getD x)

def quadraticTerm : Pattern Summand :=
  rule (map (fun (s, c, x, y) => quadraticSummand s c x y)
    (pair (lexeme (maybe sign))
      (pair (maybe leadingCoefficient) (pair (lexeme variableName) secondFactor))))

def divisor : Pattern Binary64 :=
  rule (after (lexeme (literal "/")) (lexeme number))

/-- All summands times the reciprocal of a divisor that is not zero. -/
def divide (divisor? : Option Binary64) (summands : List Summand) : List Summand :=
  match divisor? with
  | none => summands
  | some d =>
    if (Number.real d).isZero then summands
    else summands.map (·.mapCoefficient (·.mul ((Binary64.ofInt 1).div d)))

def signedSummand : Bool × Summand → Summand
  | (negative, s) => s.signed negative

def quadraticBlock : Pattern (List Summand) :=
  rule (map (fun (first, rest, d) => divide d (first :: rest.map signedSummand))
    (after (lexeme (literal "["))
      (pair quadraticTerm
        (pair (many (pair (lexeme sign) quadraticTerm))
          (after (lexeme (literal "]")) (maybe divisor))))))

def coefficientName : Pattern (List Summand) :=
  rule (map (fun (c, x) => [.linear c x]) (pair (lexeme number) variableName))

def termBody : Pattern (List Summand) :=
  rule (either quadraticBlock (either coefficientName
    (either (map (fun c => [.constant c]) number)
      (map (fun x => [.linear (Binary64.ofInt 1) x]) variableName))))

def term : Pattern (List Summand) :=
  rule (map (fun (s, body) => body.map (·.signed (s.getD false)))
    (pair (lexeme (maybe sign)) (lexeme termBody)))

def signedTerm : Bool × List Summand → List Summand
  | (negative, summands) => summands.map (·.signed negative)

def expression : Pattern (List Summand) :=
  rule (map (fun (first, rest) => first ++ rest.flatMap signedTerm)
    (pair term (many (pair (lexeme sign) term))))

def comparison : Pattern Comparison :=
  rule (oneOf "<=" .le [("=<", .le), (">=", .ge), ("=>", .ge), ("<", .le), (">", .ge), ("=", .eq)])

def row : Pattern Row :=
  rule (map (fun (label, e, c, rhs) => ⟨label, e.getD [], c, rhs⟩)
    (pair (maybe label) (pair (maybe expression) (pair (lexeme comparison) (lexeme signedNumber)))))

def rowsSection : Pattern (List Row) :=
  rule (after (lexeme subjectKeyword) (many row))

def senseKeyword : Pattern Sense :=
  rule (token fun s =>
    (scanKeyword ["maximize", "maximise", "maximum", "max",
      "minimize", "minimise", "minimum", "min"] s).map fun (word, rest) =>
        (if word.startsWith "max" then .maximize else .minimize, rest))

def objectiveSection : Pattern ObjectiveLine :=
  rule (map (fun (sense, label, e) => ⟨sense, label, e.getD []⟩)
    (pair (lexeme senseKeyword) (pair (maybe label) (maybe expression))))

def infinity : Pattern Binary64 :=
  rule (map Binary64.infinite (token scanInfinity))

def boundValue : Pattern Binary64 :=
  rule (either infinity signedNumber)

def atMost : Pattern Unit :=
  rule (oneOf "<=" () [("=<", ()), ("<", ())])

def atLeast : Pattern Unit :=
  rule (oneOf ">=" () [("=>", ()), (">", ())])

def doubleBound : Pattern BoundEntry :=
  rule (map (fun (lower, name, upper) => ⟨name, some lower, some upper⟩)
    (pair (before (lexeme boundValue) (lexeme atMost))
      (pair (before (lexeme variableName) (lexeme atMost)) (lexeme boundValue))))

def lowerBound : Pattern BoundEntry :=
  rule (map (fun (lower, name) => ⟨name, some lower, none⟩)
    (pair (before (lexeme boundValue) (lexeme atMost)) (lexeme variableName)))

def freeBound : Pattern BoundEntry :=
  rule (map (fun name => ⟨name, some (.infinite true), some (.infinite false)⟩)
    (before (lexeme variableName) (lexeme freeKeyword)))

def upperBound : Pattern BoundEntry :=
  rule (map (fun (name, upper) => ⟨name, none, some upper⟩)
    (pair (before (lexeme variableName) (lexeme atMost)) (lexeme boundValue)))

def atLeastBound : Pattern BoundEntry :=
  rule (map (fun (name, lower) => ⟨name, some lower, none⟩)
    (pair (before (lexeme variableName) (lexeme atLeast)) (lexeme boundValue)))

def fixedBound : Pattern BoundEntry :=
  rule (map (fun (name, value) => ⟨name, some value, some value⟩)
    (pair (before (lexeme variableName) (lexeme (literal "="))) (lexeme boundValue)))

def bound : Pattern BoundEntry :=
  rule (either doubleBound (either lowerBound (either freeBound (either upperBound
    (either atLeastBound fixedBound)))))

def boundsSection : Pattern Section :=
  rule (map Section.bounds (after (lexeme boundsKeyword) (many bound)))

def nameList : Pattern (List String) :=
  rule (many (lexeme variableName))

def generalsSection : Pattern Section :=
  rule (map Section.general (after (lexeme generalsKeyword) nameList))

def binariesSection : Pattern Section :=
  rule (map Section.binary (after (lexeme binariesKeyword) nameList))

def anySection : Pattern Section :=
  rule (either boundsSection (either generalsSection binariesSection))

def document : Pattern Document :=
  rule (map (fun (objective, rows, sections) =>
      sections.foldl Document.addSection { objective, rows := rows.getD [] })
    (after blanks (pair objectiveSection
      (pair (maybe rowsSection) (before (many anySection) (lexeme endKeyword))))))

def rules : List (String × Pattern Unit) := [
  ("lp_file", replaced () document),
  ("objective_section", replaced () objectiveSection),
  ("objective_sense", replaced () senseKeyword),
  ("constraints_section", replaced () rowsSection),
  ("subject_to", replaced () subjectKeyword),
  ("constraint", replaced () row),
  ("section", replaced () anySection),
  ("label", replaced () label),
  ("expression", replaced () expression),
  ("term", replaced () term),
  ("term_body", replaced () termBody),
  ("coef_variable", replaced () coefficientName),
  ("quadratic_block", replaced () quadraticBlock),
  ("quad_term", replaced () quadraticTerm),
  ("quad_coef", replaced () leadingCoefficient),
  ("quad_op", replaced () secondFactor),
  ("product", replaced () product),
  ("square", replaced () square),
  ("half", replaced () divisor),
  ("sense", replaced () comparison),
  ("bounds_section", replaced () boundsSection),
  ("bound", replaced () bound),
  ("double_bound", replaced () doubleBound),
  ("lower_bound", replaced () lowerBound),
  ("free_bound", replaced () freeBound),
  ("upper_bound", replaced () upperBound),
  ("ge_bound", replaced () atLeastBound),
  ("fixed_bound", replaced () fixedBound),
  ("le", atMost),
  ("ge", atLeast),
  ("bound_value", replaced () boundValue),
  ("infinity", replaced () infinity),
  ("generals_section", replaced () generalsSection),
  ("binaries_section", replaced () binariesSection),
  ("name_list", replaced () nameList),
  ("bounds_kw", replaced () boundsKeyword),
  ("generals_kw", replaced () generalsKeyword),
  ("binaries_kw", replaced () binariesKeyword),
  ("end_kw", replaced () endKeyword),
  ("free_kw", replaced () freeKeyword),
  ("reserved", replaced () reserved),
  ("variable_name", replaced () variableName),
  ("signed_number", replaced () signedNumber),
  ("number", replaced () number),
  ("sign", replaced () sign),
  ("_", blanks),
  ("meaninglessness", filler),
  ("comment", comment)]

end Grammar

inductive Match (α : Type)
  | whole (a : α)
  | start (a : α) (length : Nat)
  | none (failure : Nat)

def Pattern.read (p : Pattern α) (text : String) : Match α :=
  let s := text.toList
  match p.run s with
  | some (a, rest) => if rest.isEmpty then .whole a else .start a (s.length - rest.length)
  | none => .none (p.failurePosition s)

def Document.read (text : String) : Except Mismatch Document :=
  match Grammar.document.read text with
  | .whole d => .ok d
  | .start _ position => .error ⟨text, position⟩
  | .none position => .error ⟨text, position⟩

/-- Whether a numeral of a text has digits whose values are not known. Outside comments such digits
stand in numerals only. -/
def hasNewDigit (text : String) : Bool :=
  go false text.toList
where
  go : Bool → List Char → Bool
    | _, [] => false
    | true, c :: s => go (c != '\n') s
    | false, c :: s => Text.isNewDigit c || go (c = '\\') s

end LinOpt.LpText
