import Mathlib
import Audience.Proofs.Duration.Amount
import Audience.Proofs.Reading.Literals

/-! # Reading spoken durations

A text speaks of a duration exactly if it is an amount and a unit, with white space only around and
between them. It then stands for the product of the two, each as the nearest double. Every other
text is refused for the first that is wrong with it: its shape, its amount, or its unit.
-/

namespace Audience.Spoken

open Decimal
open Text (isBlank)

inductive TimeUnit where
  | nanosecond
  | microsecond
  | millisecond
  | second
  | minute
  | hour
  | day
  | week

namespace TimeUnit

/-- The names of a unit, in this letter case only. -/
def words : TimeUnit → List String
  | nanosecond => ["nanoseconds", "nanosecond", "nanos", "ns"]
  | microsecond => ["microseconds", "microsecond", "micros", "us"]
  | millisecond => ["milliseconds", "millisecond", "millis", "ms"]
  | second => ["seconds", "second", "secs", "sec", "s"]
  | minute => ["minutes", "minute", "min", "m"]
  | hour => ["hours", "hour", "hr", "h"]
  | day => ["days", "day", "d"]
  | week => ["weeks", "week", "w"]

def nanoseconds : TimeUnit → Nat
  | nanosecond => 1
  | microsecond => 1000
  | millisecond => 1000000
  | second => 1000000000
  | minute => 60000000000
  | hour => 3600000000000
  | day => 86400000000000
  | week => 604800000000000

def milliseconds (u : TimeUnit) : ℚ :=
  u.nanoseconds / 10 ^ 6

def millis (u : TimeUnit) : Float :=
  Numeral.toFloat ⟨u.nanoseconds, -6⟩

theorem isAlpha_of_mem_words {u : TimeUnit} {word : String} (h : word ∈ u.words) :
    ∀ c ∈ word.toList, c.isAlpha = true := by
  cases u <;> simp only [words, List.mem_cons, List.not_mem_nil, or_false] at h <;>
    (repeat' rcases h with rfl | h) <;> simp [Char.isAlpha, Char.isUpper, Char.isLower]

theorem unitMillis?_of_mem_words {u : TimeUnit} {word : String} (h : word ∈ u.words) :
    unitMillis? word = some u.millis := by
  cases u <;> simp only [words, List.mem_cons, List.not_mem_nil, or_false] at h <;>
    (repeat' rcases h with rfl | h) <;> decide +kernel

theorem unitMillis?_eq_none {word : String} (h : ∀ u : TimeUnit, word ∉ u.words) :
    unitMillis? word = none := by
  simp only [unitMillis?]
  calc _ = _ := if_neg (h nanosecond)
    _ = _ := if_neg (h microsecond)
    _ = _ := if_neg (h millisecond)
    _ = _ := if_neg (h second)
    _ = _ := if_neg (h minute)
    _ = _ := if_neg (h hour)
    _ = _ := if_neg (h day)
    _ = none := if_neg (h week)

end TimeUnit

/-- A spoken duration. -/
structure Spelling where
  amount : Amount
  unit : TimeUnit
  word : String
  mem : word ∈ unit.words

namespace Spelling

/-- Whether a text is a spoken duration, apart from white space around its parts. -/
def Spells (x : Spelling) (text : String) : Prop :=
  ∃ before between after : List Char,
    (∀ c ∈ before, isBlank c = true) ∧ (∀ c ∈ between, isBlank c = true) ∧
      (∀ c ∈ after, isBlank c = true) ∧
      text.toList = before ++ (x.amount.chars ++ (between ++ (x.word.toList ++ after)))

/-- The product of the amount and the milliseconds of the unit, each as the nearest double. -/
def Denotes (x : Spelling) (y : Float) : Prop :=
  ∃ amount millis, x.amount.IsReadAs amount ∧ Binary64.IsNearest x.unit.milliseconds millis ∧
    y = amount * millis

def millis (x : Spelling) : Float :=
  x.amount.toFloat * x.unit.millis

def shape (x : Spelling) : Shape where
  sign := signChars x.amount.sign
  mantissa := x.amount.mantissa
  exponent := x.amount.exponentChars
  unit := x.word.toList

theorem fills_shape (x : Spelling) : x.amount.Fills x.shape :=
  ⟨rfl, rfl, rfl⟩

end Spelling

/-- What is wrong with a text that is no spoken duration. -/
inductive Refuses (text : String) : Fault → Prop where
  | shape (h : ∀ x : Shape, ¬ x.IsOf text.toList) : Refuses text (.shape text)
  | amount {x : Shape} (h : x.IsOf text.toList) (other : ¬ x.IsNumber) :
      Refuses text (.amount x.amountText)
  | unit {x : Shape} (h : x.IsOf text.toList) (number : x.IsNumber)
      (other : ∀ u : TimeUnit, String.ofList x.unit ∉ u.words) :
      Refuses text (.unit (String.ofList x.unit))

section Millis

variable {text : String}

theorem millis_eq (text : String) : Spoken.millis text =
    match Shape.ofChars? text.toList with
    | none => .error (.shape text)
    | some x => match x.amount? with
      | none => .error (.amount x.amountText)
      | some amount => match unitMillis? (String.ofList x.unit) with
        | none => .error (.unit (String.ofList x.unit))
        | some unit => .ok (amount * unit) := by
  unfold Spoken.millis
  rcases Shape.ofChars? text.toList with _ | x
  · rfl
  · rcases h : x.amount? with _ | amount
    · simp [h]
      rfl
    · rcases h' : unitMillis? (String.ofList x.unit) with _ | unit <;> simp [h, h'] <;> rfl

theorem Spelling.isWritten_shape (x : Spelling) : x.shape.IsWritten where
  sign := isSign_iff.mpr ⟨_, rfl⟩
  ne := by
    obtain ⟨-, c, hc, -⟩ := x.fills_shape.isNumber
    exact List.ne_nil_of_mem hc
  mantissa _ hc := x.amount.isMantissa_of_mem hc
  exponent := x.amount.isExponent_exponentChars
  unit := TimeUnit.isAlpha_of_mem_words x.mem

theorem Spelling.Spells.isOf {x : Spelling} (h : x.Spells text) : x.shape.IsOf text.toList := by
  obtain ⟨before, between, after, hbefore, hbetween, hafter, same⟩ := h
  refine ⟨x.isWritten_shape, before, between, after, hbefore, hbetween, hafter, ?_⟩
  rw [same]
  simp [shape, Amount.chars]

theorem Spelling.Spells.millis_eq {x : Spelling} (h : x.Spells text) :
    Spoken.millis text = .ok x.millis := by
  rw [Spoken.millis_eq, Shape.ofChars?_eq_some_iff.mpr h.isOf]
  have word : String.ofList x.shape.unit = x.word := String.ofList_toList
  simp only [x.fills_shape.amount?_eq, word, TimeUnit.unitMillis?_of_mem_words x.mem]
  rfl

theorem Refuses.millis_eq {f : Fault} (h : Refuses text f) : Spoken.millis text = .error f := by
  rw [Spoken.millis_eq]
  cases h with
  | shape h =>
    have none : Shape.ofChars? text.toList = none :=
      Option.eq_none_iff_forall_ne_some.mpr fun x hx => h x (Shape.ofChars?_eq_some_iff.mp hx)
    rw [none]
  | amount h other =>
    simp only [Shape.ofChars?_eq_some_iff.mpr h, h.1.amount?_eq_none other]
  | unit h number other =>
    obtain ⟨a, ha⟩ := h.1.exists_amount number
    simp only [Shape.ofChars?_eq_some_iff.mpr h, ha.amount?_eq, TimeUnit.unitMillis?_eq_none other]

end Millis

end Audience.Spoken
