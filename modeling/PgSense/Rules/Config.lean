import PgSense.Pattern

/-! The rule schema of a rules file, and the scope checks of a rule. -/

namespace PgSense
open Library
set_option autoImplicit false

structure Allowlist where
  description : Option String
  values : List String
  patterns : List String
  deriving DecidableEq, Repr

inductive Severity where
  | critical
  | high
  | medium
  | low
  | info
  deriving DecidableEq, Repr

def Severity.display : Severity → String
  | critical => "CRITICAL"
  | high => "HIGH"
  | medium => "MEDIUM"
  | low => "LOW"
  | info => "INFO"

inductive Validator where
  | luhn
  | ssn
  | phone
  | email
  | iban
  deriving DecidableEq, Repr

inductive RuleType where
  | regex
  | builtin
  | script
  deriving DecidableEq, Repr

inductive BuiltinKind where
  | creditCard
  | email
  | iban
  | phone
  | ssn
  deriving DecidableEq, Repr

structure RuleScope where
  includeSchemas : PatternMatcher
  includeTables : PatternMatcher
  excludeTables : PatternMatcher
  includeColumns : PatternMatcher
  excludeColumns : PatternMatcher

namespace RuleScope

def empty : RuleScope := ⟨.empty, .empty, .empty, .empty, .empty⟩

/-- The first name listed on both sides of an include and an exclude list. -/
def conflict (included excluded : PatternMatcher) : Option String :=
  included.raw.find? fun name => excluded.raw.contains name

def validate (s : RuleScope) (ruleId : String) : Outcome Error Unit :=
  match conflict s.includeTables s.excludeTables with
  | some t => .err (.msg
      s!"rule '{ruleId}': table '{t}' appears in both include_tables and exclude_tables")
  | none =>
    match conflict s.includeColumns s.excludeColumns with
    | some c => .err (.msg
        s!"rule '{ruleId}': column '{c}' appears in both include_columns and exclude_columns")
    | none => .ok ()

theorem validate_ne_panic (s : RuleScope) (ruleId m : String) : s.validate ruleId ≠ .panic m := by
  unfold validate
  split
  · simp
  · split <;> simp

def «matches» (s : RuleScope) (schema table column : String) : Bool :=
  if !s.includeSchemas.isEmpty && !s.includeSchemas.isMatch schema then false
  else if !s.includeTables.isEmpty && !s.includeTables.isMatch table then false
  else if s.excludeTables.isMatch table then false
  else if !s.includeColumns.isEmpty && !s.includeColumns.isMatch column then false
  else if s.excludeColumns.isMatch column then false
  else true

end RuleScope

structure RuleConfig where
  id : String
  description : String
  category : String
  severity : Severity
  ruleType : RuleType
  pattern : Option String
  validate : Option Validator
  builtin : Option BuiltinKind
  script : Option String
  allowlist : Option Allowlist
  scope : Option RuleScope
  channels : Option (List String)

end PgSense
