import StaticTyping.Checker.Operand

/-!
# Arguments and parameters

The arguments of a call are all positional or all named.  Arranging them gives one value for each
parameter, in the order of the parameters: a variadic parameter takes a list of all it absorbs,
and a parameter that is left out takes its default.
-/

namespace StaticTyping

def Signature.fixedParams (sig : Signature) : List Param :=
  if sig.restParam?.isSome then sig.params.dropLast else sig.params

def Signature.fits (sig : Signature) (count : Nat) : Bool :=
  if sig.restParam?.isSome then sig.fixedParams.length ≤ count else count = sig.fixedParams.length

theorem Signature.length_fixedParams_le_of_fits {sig : Signature} {count : Nat}
    (h : sig.fits count) : sig.fixedParams.length ≤ count := by
  unfold fits at h
  split at h
  · exact of_decide_eq_true h
  · exact Nat.le_of_eq (of_decide_eq_true h).symm

theorem Signature.eq_length_fixedParams_of_fits {sig : Signature} {count : Nat}
    (hrest : sig.restParam? = none) (h : sig.fits count) : count = sig.fixedParams.length := by
  unfold fits at h
  rw [hrest] at h
  exact of_decide_eq_true h

/-- A parameter and the value it is given, if there is one. -/
structure Seat where
  param : Param
  value : Option Typed.Expr

namespace Seat

def ofSignature (sig : Signature) : List Seat :=
  sig.params.map fun p => ⟨p, none⟩

def find? (name : String) (seats : List Seat) : Option Seat :=
  seats.find? (·.param.name == name)

def give (name : String) (value : Typed.Expr) : List Seat → List Seat
  | [] => []
  | seat :: seats =>
      if seat.param.name = name then ⟨seat.param, some value⟩ :: seats
      else seat :: give name value seats

end Seat

namespace CheckM

def omitted (callee : String) (span : Span) (p : Param) : CheckM Typed.Expr :=
  match p.default with
  | some value => pure value
  | none =>
      if p.variadic then pure ⟨.list [], p.bodyTy, span⟩
      else fail (.argumentMissing callee p.name) span.line

def seated (callee : String) (span : Span) (seat : Seat) : CheckM Typed.Expr :=
  match seat.value with
  | some value => pure value
  | none => omitted callee span seat.param

def byPosition (callee : String) (sig : Signature) (args : List Operand) (span : Span) :
    CheckM (List Typed.Expr) := do
  let fixed := sig.fixedParams
  require (sig.fits args.length) (.argumentCount callee fixed.length args.length) span.line
  let values ← collect (List.zipWith (fun p arg => arg.confirm p.ty) fixed args)
  match sig.restParam? with
  | none => pure values
  | some p => do
      let absorbed ← collect ((args.drop fixed.length).map (·.confirm p.ty))
      pure (values ++ [⟨.list absorbed, p.bodyTy, span⟩])

def giveNamed (callee : String) : List (Ident × Operand) → List Seat → CheckM (List Seat)
  | [], seats => pure seats
  | (name, arg) :: rest, seats => do
      let seat ← orFail (Seat.find? name.name seats) (.argumentUnknown callee name.name) name.line
      require seat.value.isNone (.argumentRepeated callee name.name) name.line
      let value ← arg.confirm seat.param.bodyTy
      giveNamed callee rest (Seat.give name.name value seats)

def byName (callee : String) (sig : Signature) (args : List (Ident × Operand)) (span : Span) :
    CheckM (List Typed.Expr) := do
  let seats ← giveNamed callee args (Seat.ofSignature sig)
  collect (seats.map (seated callee span))

def namedOnly (args : List Argument) : List (Ident × Operand) :=
  args.filterMap fun arg => arg.name.map fun name => (name, arg.value)

theorem mem_namedOnly {args : List Argument} {named : Ident × Operand} :
    named ∈ namedOnly args ↔ ⟨some named.1, named.2⟩ ∈ args := by
  unfold namedOnly
  rw [List.mem_filterMap]
  constructor
  · rintro ⟨⟨_, value⟩, harg, hnamed⟩
    rcases Option.map_eq_some_iff.mp hnamed with ⟨name, rfl, rfl⟩
    exact harg
  · exact fun harg => ⟨_, harg, rfl⟩

/-- One value for each parameter, in their order.  Without arguments all parameters are left out. -/
def arrange (callee : String) (sig : Signature) (args : List Argument) (span : Span) :
    CheckM (List Typed.Expr) :=
  if args.isEmpty then byName callee sig [] span
  else if args.all (·.name.isNone) then byPosition callee sig (args.map (·.value)) span
  else if args.all (·.name.isSome) then byName callee sig (namedOnly args) span
  else fail (.argumentsMixed callee) span.line

end CheckM
end StaticTyping
