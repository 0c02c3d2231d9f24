-- SUMMARY: The message filters of `filters.rs`, and when an expression of them has its Boolean value.
import Mathlib.Data.List.Infix

/-!
# Filters

A value that implements `Filter` is a tree of the types in `filters.rs`. Running it
short-circuits as `&&` and `||` do, and panics at a reference, whose `filter` is a
`todo!()`. Messages and times belong to other crates, so what is asked of them is a
parameter.
-/

namespace Mail

/-! ## Other crates -/

/-- What a filter asks a message for. -/
class OwnedMessage (μ : Type) where
  subject : μ → Option String
  /-- Whether the sender, if there is one, contains the text. -/
  senderContains : μ → Option (String → Bool)
  /-- The date as a timestamp. -/
  date : μ → Option Int

/-- A point in time, as far as a filter compares it. -/
class DateTime (δ : Type) where
  fromTimestamp : Int → Option δ
  before : δ → δ → Bool

variable {δ μ : Type}

/-! ## The types that implement `Filter` -/

inductive DateFilterMode where
  | since
  | earlier
  deriving DecidableEq, Repr

inductive Filter (δ : Type) where
  /-- `()` -/
  | unit
  /-- `Subject` -/
  | subject (subject : String)
  /-- `SubjectContains` -/
  | subjectContains (pattern : String)
  /-- `Sender` -/
  | sender (sender : String)
  /-- `DateFilter` -/
  | date (mode : DateFilterMode) (date : δ)
  /-- `And` -/
  | and (first second : Filter δ)
  /-- `Or` -/
  | or (first second : Filter δ)
  /-- `Box<dyn Filter>` -/
  | box (inner : Filter δ)
  /-- `&T` -/
  | ref (inner : Filter δ)
  deriving Repr

/-- `str::contains` -/
def containsText (text pattern : String) : Bool := decide (pattern.toList <:+: text.toList)

namespace Filter

variable [OwnedMessage μ] [DateTime δ]

def subjectFilter (subject : String) (msg : μ) : Bool :=
  match OwnedMessage.subject msg with
  | none => false
  | some msgSubject => msgSubject == subject

def subjectContainsFilter (pattern : String) (msg : μ) : Bool :=
  match OwnedMessage.subject msg with
  | none => false
  | some msgSubject => containsText msgSubject pattern

def senderFilter (sender : String) (msg : μ) : Bool :=
  (OwnedMessage.senderContains msg).any fun contains => contains sender

def dateFilter (mode : DateFilterMode) (date : δ) (msg : μ) : Bool :=
  match (OwnedMessage.date msg).bind fun timestamp => DateTime.fromTimestamp timestamp with
  | none => false
  | some msgDate =>
    match mode with
    | .since => DateTime.before date msgDate
    | .earlier => DateTime.before msgDate date

/-- The `filter` of each type; `none` is a panic. -/
def filter : Filter δ → μ → Option Bool
  | .unit, _ => some true
  | .subject s, msg => some (subjectFilter s msg)
  | .subjectContains s, msg => some (subjectContainsFilter s msg)
  | .sender s, msg => some (senderFilter s msg)
  | .date mode d, msg => some (dateFilter mode d msg)
  | .and first second, msg => do if ← first.filter msg then second.filter msg else return false
  | .or first second, msg => do if ← first.filter msg then return true else second.filter msg
  | .box inner, msg => inner.filter msg
  | .ref _, _ => none

end Filter

/-! ## The public functions -/

namespace Filters

def empty : Filter δ := .unit
def subject (s : String) : Filter δ := .subject s
def subjectContains (s : String) : Filter δ := .subjectContains s
def sender (s : String) : Filter δ := .sender s
def sentSince (s : δ) : Filter δ := .date .since s

end Filters

namespace Filter

/-- `Filter::dynamize` -/
def dynamize (self : Filter δ) : Filter δ := .box self

/-! `FilterExt`, whose last eight functions are generated from those of `Filters`. -/

def andSubject (self : Filter δ) (s : String) : Filter δ := self.and (Filters.subject s)
def orSubject (self : Filter δ) (s : String) : Filter δ := self.or (Filters.subject s)
def andSubjectContains (self : Filter δ) (s : String) : Filter δ :=
  self.and (Filters.subjectContains s)
def orSubjectContains (self : Filter δ) (s : String) : Filter δ :=
  self.or (Filters.subjectContains s)
def andSender (self : Filter δ) (s : String) : Filter δ := self.and (Filters.sender s)
def orSender (self : Filter δ) (s : String) : Filter δ := self.or (Filters.sender s)
def andSentSince (self : Filter δ) (s : δ) : Filter δ := self.and (Filters.sentSince s)
def orSentSince (self : Filter δ) (s : δ) : Filter δ := self.or (Filters.sentSince s)

end Filter

/-! ## Expressions -/

/-- The functions of `Filters` that make a filter of one argument. -/
inductive Leaf (δ : Type) where
  | subject (s : String)
  | subjectContains (s : String)
  | sender (s : String)
  | sentSince (s : δ)

/-- The calls that build a filter. -/
inductive FilterExpr (δ : Type) where
  | empty
  | leaf (leaf : Leaf δ)
  | and (first second : FilterExpr δ)
  | or (first second : FilterExpr δ)
  /-- `and_subject` and its like -/
  | andLeaf (first : FilterExpr δ) (second : Leaf δ)
  /-- `or_subject` and its like -/
  | orLeaf (first : FilterExpr δ) (second : Leaf δ)
  | dynamize (inner : FilterExpr δ)
  /-- The filter is passed by shared reference. -/
  | byRef (inner : FilterExpr δ)

/-- The filter of a leaf. -/
def Leaf.build : Leaf δ → Filter δ
  | .subject s => Filters.subject s
  | .subjectContains s => Filters.subjectContains s
  | .sender s => Filters.sender s
  | .sentSince s => Filters.sentSince s

/-- The filter that the calls build. -/
def FilterExpr.build : FilterExpr δ → Filter δ
  | .empty => Filters.empty
  | .leaf l => l.build
  | .and first second => first.build.and second.build
  | .or first second => first.build.or second.build
  | .andLeaf first (.subject s) => first.build.andSubject s
  | .andLeaf first (.subjectContains s) => first.build.andSubjectContains s
  | .andLeaf first (.sender s) => first.build.andSender s
  | .andLeaf first (.sentSince s) => first.build.andSentSince s
  | .orLeaf first (.subject s) => first.build.orSubject s
  | .orLeaf first (.subjectContains s) => first.build.orSubjectContains s
  | .orLeaf first (.sender s) => first.build.orSender s
  | .orLeaf first (.sentSince s) => first.build.orSentSince s
  | .dynamize inner => inner.build.dynamize
  | .byRef inner => .ref inner.build

/-! ## Values -/

/-- The predicate of a leaf. -/
def Leaf.value [OwnedMessage μ] [DateTime δ] (msg : μ) : Leaf δ → Bool
  | .subject s => Filter.subjectFilter s msg
  | .subjectContains s => Filter.subjectContainsFilter s msg
  | .sender s => Filter.senderFilter s msg
  | .sentSince s => Filter.dateFilter .since s msg

namespace FilterExpr

variable [OwnedMessage μ] [DateTime δ]

/-- The Boolean value of an expression. -/
def value (msg : μ) : FilterExpr δ → Bool
  | .empty => true
  | .leaf l => l.value msg
  | .and first second => first.value msg && second.value msg
  | .or first second => first.value msg || second.value msg
  | .andLeaf first second => first.value msg && second.value msg
  | .orLeaf first second => first.value msg || second.value msg
  | .dynamize inner => inner.value msg
  | .byRef inner => inner.value msg

/-- Evaluating from left to right, and no further than the value is open, comes to a
filter that was passed by reference. -/
def MeetsRef (msg : μ) : FilterExpr δ → Prop
  | .empty | .leaf _ => False
  | .and first second => first.MeetsRef msg ∨ (first.value msg = true ∧ second.MeetsRef msg)
  | .or first second => first.MeetsRef msg ∨ (first.value msg = false ∧ second.MeetsRef msg)
  | .andLeaf first _ | .orLeaf first _ => first.MeetsRef msg
  | .dynamize inner => inner.MeetsRef msg
  | .byRef _ => True

/-! ## What a filter returns -/

omit [OwnedMessage μ] [DateTime δ] in
/-- The generated functions combine with the leaf of their name. -/
@[simp] theorem build_andLeaf (first : FilterExpr δ) (second : Leaf δ) :
    (andLeaf first second).build = first.build.and second.build := by
  cases second <;> rfl

omit [OwnedMessage μ] [DateTime δ] in
@[simp] theorem build_orLeaf (first : FilterExpr δ) (second : Leaf δ) :
    (orLeaf first second).build = first.build.or second.build := by
  cases second <;> rfl

@[simp] theorem filter_leaf (l : Leaf δ) (msg : μ) :
    l.build.filter msg = some (l.value msg) := by
  cases l <;> rfl

/-- A filter returns the value of its expression, unless it panics at a reference. -/
theorem filter_build (expr : FilterExpr δ) (msg : μ) :
    expr.MeetsRef msg ∧ expr.build.filter msg = none ∨
      ¬ expr.MeetsRef msg ∧ expr.build.filter msg = some (expr.value msg) := by
  induction expr with
  | empty => exact .inr ⟨not_false, rfl⟩
  | leaf l => exact .inr ⟨not_false, filter_leaf l msg⟩
  | and first second hfirst hsecond =>
    rcases hfirst with ⟨hmeets, hfirst⟩ | ⟨hmeets, hfirst⟩
    · exact .inl ⟨.inl hmeets, by simp [build, Filter.filter, hfirst]⟩
    · cases hvalue : first.value msg <;> rw [hvalue] at hfirst
      -- the second filter is not run
      · simp [MeetsRef, hmeets, hvalue, build, Filter.filter, hfirst, value]
      · simpa [MeetsRef, hmeets, hvalue, build, Filter.filter, hfirst, value] using hsecond
  | or first second hfirst hsecond =>
    rcases hfirst with ⟨hmeets, hfirst⟩ | ⟨hmeets, hfirst⟩
    · exact .inl ⟨.inl hmeets, by simp [build, Filter.filter, hfirst]⟩
    · cases hvalue : first.value msg <;> rw [hvalue] at hfirst
      · simpa [MeetsRef, hmeets, hvalue, build, Filter.filter, hfirst, value] using hsecond
      · simp [MeetsRef, hmeets, hvalue, build, Filter.filter, hfirst, value]
  | andLeaf first second hfirst =>
    refine hfirst.imp (fun h => ⟨h.1, ?_⟩) fun h => ⟨h.1, ?_⟩
    · simp [Filter.filter, h.2]
    · cases hvalue : first.value msg <;> simp [Filter.filter, h.2, hvalue, value]
  | orLeaf first second hfirst =>
    refine hfirst.imp (fun h => ⟨h.1, ?_⟩) fun h => ⟨h.1, ?_⟩
    · simp [Filter.filter, h.2]
    · cases hvalue : first.value msg <;> simp [Filter.filter, h.2, hvalue, value]
  | dynamize inner ih => exact ih
  | byRef inner => exact .inl ⟨trivial, rfl⟩

/-- A filter returns the Boolean value of its expression exactly when evaluating it does
not come to a reference. -/
theorem filter_iff (expr : FilterExpr δ) (msg : μ) :
    expr.build.filter msg = some (expr.value msg) ↔ ¬ expr.MeetsRef msg := by
  rcases filter_build expr msg with ⟨hmeets, hfilter⟩ | ⟨hmeets, hfilter⟩
  · simp [hmeets, hfilter]
  · exact iff_of_true hfilter hmeets

end FilterExpr

/-! ## A message -/

/-- Messages of which only the subject is known. -/
@[reducible] def subjectOnly : OwnedMessage String := ⟨some, fun _ => none, fun _ => none⟩

@[reducible] def timestamps : DateTime Int := ⟨some, fun a b => decide (a < b)⟩

/-- A reference to a filter can be combined, and panics where the filter itself returns
`true`. -/
theorem reference_panics :
    let invoice : FilterExpr Int := .leaf (.subjectContains "Invoice")
    let expr : FilterExpr Int := .and .empty (.byRef invoice)
    @Filter.filter _ _ subjectOnly timestamps expr.build "Invoice 7" = none ∧
      @FilterExpr.value _ _ subjectOnly timestamps "Invoice 7" expr = true ∧
      @Filter.filter _ _ subjectOnly timestamps invoice.build "Invoice 7" = some true := by
  decide

end Mail
