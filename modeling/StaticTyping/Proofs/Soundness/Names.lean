import StaticTyping.Proofs.Formation
import StaticTyping.Proofs.Outcome

/-!
# Names, imports and operands

In a well-formed state names have well-formed types, imports bring in well-formed modules, and an
operand that is confirmed has a type that is accepted.
-/

namespace StaticTyping

open CheckM

/-- A loader that knows well-formed types only, if the session does. -/
structure Loader.Sound (D : Discipline) (load : Loader) : Prop where
  releases : load.Releases
  apart : load.StaysApart
  wellFormed : ∀ (package : String) {σ : Session}, σ.WellFormed D →
    (load package σ).2.WellFormed D
  value : ∀ {package : String} {σ : Session} {m : ModuleTy}, σ.WellFormed D →
    (load package σ).1 = .ok m → (Ty.moduleTy m).WellFormed D
  standard : ∀ {package : String} {m : ModuleTy}, Library.standard? package = some m →
    ∀ σ, load package σ = (.ok m, σ)

/-- A type that can be written as an annotation, where the imports it refers to are seen. -/
structure Ty.Annotates (D : Discipline) (env : Surroundings) (ty : Ty) : Prop where
  written : ty.written D
  seen : env.SeesAll ty.names

namespace CheckM

variable {D : Discipline} {env : Surroundings} {Γ : Context}

/-!
# Names
-/

theorem value?_shifted {name : String} (h : env.sees name) (s : State) :
    env.value? (env.shifted s).session.symbols name = env.value? s.session.symbols name := by
  have hseen : env.imported? (env.shifted s).session.symbols name =
      env.imported? s.session.symbols name := env.seen h s.session.symbols
  have hfound : env.find? (env.shifted s).session.symbols name =
      env.find? s.session.symbols name := rfl
  unfold Env.value?
  rw [hseen, hfound]

theorem typeName?_shifted {name : String}
    (h : ∀ localName member, splitDot? name = some (localName, member) → env.sees localName)
    (s : State) :
    env.typeName? (env.shifted s).session.symbols name =
      env.typeName? s.session.symbols name := by
  unfold Env.typeName?
  cases hsplit : splitDot? name with
  | none => rfl
  | some parts =>
      have hseen : env.imported? (env.shifted s).session.symbols parts.1 =
          env.imported? s.session.symbols parts.1 := env.seen (h _ _ hsplit) s.session.symbols
      dsimp only
      rw [hseen]

theorem find?_wellFormed {s : State} (hs : s.WellFormed D) {name : String} {ty : Ty}
    (h : env.find? s.session.symbols name = some ty) : ty.WellFormed D := by
  unfold Env.find? at h
  split at h
  next hfound =>
    cases h
    exact hs.session.symbols.lookup? hfound
  next => exact hs.session.symbols.lookup? h

theorem typeName?_wellFormed {s : State} (hs : s.WellFormed D) {name : String} {ty : Ty}
    (h : env.typeName? s.session.symbols name = some ty) : ty.WellFormed D := by
  unfold Env.typeName? at h
  split at h
  · rcases Option.bind_eq_some_iff.mp h with ⟨scope, hscope, h⟩
    rcases Option.bind_eq_some_iff.mp h with ⟨found, hfound, h⟩
    exact (hs.session.symbols.imports hscope _ _ hfound).nominal? h
  · rcases Option.bind_eq_some_iff.mp h with ⟨found, hfound, h⟩
    exact (find?_wellFormed hs hfound).nominal? h

theorem value?_wellFormed {s : State} (hs : s.WellFormed D) {name : String} {ty : Ty}
    (h : env.value? s.session.symbols name = some ty) : ty.WellFormed D := by
  unfold Env.value? at h
  split at h
  next hfound =>
    cases h
    exact find?_wellFormed hs hfound
  next =>
    rcases Option.map_eq_some_iff.mp h with ⟨scope, hscope, rfl⟩
    exact Scope.WellFormed.toModule (hs.session.symbols.imports hscope) name

theorem Yields.valueOf {name : String} (hname : env.sees name) (line : UInt32) :
    (CheckM.valueOf name line).Yields D env Γ fun ty => ty.WellFormed D := by
  refine Yields.bind (Yields.view (P := fun ty? => ∀ ty, ty? = some ty → ty.WellFormed D)
    (value?_shifted hname) fun s hs _ ty h => value?_wellFormed hs h) fun ty? h =>
    Ensures.orFail fun ty hty => ?_
  exact ⟨rfl, h ty hty⟩

theorem Yields.resolveTy {ty : Ty} (hty : ty.Annotates D env) (line : UInt32) :
    (CheckM.resolveTy ty line).Yields D env Γ fun ty' => ty'.WellFormed D := by
  refine Yields.bind (Yields.view (P := fun r => ∀ ty', r = .ok ty' → ty'.WellFormed D)
    (fun s => ?_) fun s hs _ ty' h => ?_) fun r h => ?_
  · exact Ty.resolve_congr ty fun name hname => typeName?_shifted (hty.seen name hname) s
  · exact Ty.WellFormed.resolve (fun _ _ => typeName?_wellFormed hs) ty hty.written h
  · cases r with
    | ok ty' => exact Yields.pure (h ty' rfl)
    | error name => exact Yields.fail _ _

theorem Yields.variableTy {name : Ident} (hname : env.sees name.name) :
    (CheckM.variableTy name).Yields D env Γ fun ty => ty.WellFormed D := by
  refine (Yields.valueOf hname name.line).bind fun found hfound =>
    Yields.bind (P := fun ty => ty.WellFormed D) ?_ fun ty hty =>
    Yields.require.bind fun _ _ => Yields.pure hty
  cases found with
  | unknown deferred =>
      -- no well-formed type is a name that is not looked up
      cases hfound with
      | atom h => cases h
  | _ => exact Yields.pure hfound

theorem Yields.currentClass {c : ClassTy} (hc : (Ty.classTy c).WellFormed D) :
    (CheckM.currentClass c).Yields D env Γ fun c' =>
      c' = Γ.scopes.currentClass c ∧ (Ty.classTy c').WellFormed D := by
  refine Yields.view (fun _ => rfl) fun s hs hΓ => ?_
  rw [Env.currentClass_eq, hΓ]
  refine ⟨rfl, ?_⟩
  rw [← hΓ]
  exact (hs.session.symbols.scopesOf env.space).currentClass hc

theorem Yields.currentInterface {i : InterfaceTy} (hi : (Ty.interfaceTy i).WellFormed D) :
    (CheckM.currentInterface i).Yields D env Γ fun i' =>
      i' = Γ.scopes.currentInterface i ∧ (Ty.interfaceTy i').WellFormed D := by
  refine Yields.view (fun _ => rfl) fun s hs hΓ => ?_
  rw [Env.currentInterface_eq, hΓ]
  refine ⟨rfl, ?_⟩
  rw [← hΓ]
  exact (hs.session.symbols.scopesOf env.space).currentInterface hi

theorem Yields.imported? {localName : String} (hname : env.sees localName) :
    (CheckM.imported? localName).Yields D env Γ fun scope? =>
      ∀ scope, scope? = some scope → Scope.WellFormed D scope :=
  Yields.view (fun s => env.seen hname s.session.symbols) fun _ hs _ _ hscope =>
    hs.session.symbols.imports hscope

/-!
# Imports
-/

theorem Yields.importStandard {ty : Ty} {package localName : String}
    (h : ty.builtinPackage? = some (package, localName)) :
    (do CheckM.importStandard package localName
        CheckM.imported? localName).Yields D env Γ fun scope? =>
      ∀ scope, scope? = some scope → Scope.WellFormed D scope ∧
        (localName ∈ D.reserved →
          ∃ m, Library.standard? package = some m ∧ scope = Scope.ofModule m) := by
  intro s hs hΓ
  have happly := importStandard_apply package localName env s
  refine ⟨?_, ?_⟩
  · refine Outcome.bind (Q := fun _ t => t.context env = Γ) ?_ fun _ t ht hΓ' =>
      .ok ht ⟨hΓ', fun scope hscope => ⟨ht.session.symbols.imports hscope, fun hreserved =>
        ht.session.symbols.reserved _ (Library.mem_onDemand h) hreserved scope hscope⟩⟩
    rcases importStandard_cases package localName env s with hrun | ⟨m, hm, hrun⟩
    · rw [hrun]
      exact .ok hs hΓ
    · rw [hrun]
      have hmodule := Library.standard?_wellFormed (D := D) hm
      have hsymbols := hs.session.symbols.addModule env.file hmodule fun p hp _ hspace =>
        Library.standard?_of_localName_eq hp (Library.mem_onDemand h) hspace hm
      exact ⟨.addModule s _ _ _, ⟨⟨hsymbols, hs.session.compiled⟩, hs.classes⟩, id, fun _ => hΓ⟩
  · have happly' := importStandard_apply package localName env (env.shifted s)
    -- that the package becomes visible and that imports change can come about in either order
    have hcommutes : onSymbols (·.addStandard env.file package localName) (env.shifted s) =
        env.shifted (onSymbols (·.addStandard env.file package localName) s) := by
      unfold Surroundings.shifted onSymbols
      dsimp only
      rw [env.standard h]
    rw [hcommutes] at happly'
    unfold Unaffected
    rw [bind_apply_of_ok happly, bind_apply_of_ok happly']
    show (Except.ok _, _) = (Except.ok _, _)
    congr 2
    exact env.standardSeen h s.session.symbols

theorem context_of_load {s : State} {τ : Session} (hreleased : s.session.Released τ)
    (hapart : s.session.ChangesOnly (fun _ => False) τ) :
    (s.context env).Imports (State.context env { s with session := τ }) := by
  have hshared : τ.Shares env.space = s.session.Shares env.space :=
    congrFun (Session.shares_congr hreleased.underWay) env.space
  refine ⟨hreleased.symbols.below_scopesOf env.space, rfl, hshared, fun hnot => ?_⟩
  have hget : τ.symbols.spaces.get? env.space = s.session.symbols.spaces.get? env.space :=
    hapart.kept id hnot
  have hscopes : τ.symbols.scopesOf env.space = s.session.symbols.scopesOf env.space := by
    unfold SymbolTable.scopesOf
    rw [hget]
  show Context.mk _ _ _ = Context.mk _ _ _
  congr 1

theorem Ensures.loadPackage (himports : env.imports) (hload : env.load.Sound D)
    (package : String) (line : UInt32) :
    (CheckM.loadPackage package line).Ensures D env Γ fun m Γ' =>
      ((Ty.moduleTy m).WellFormed D ∧ ∀ n, Library.standard? package = some n → m = n) ∧
        Γ.Imports Γ' := by
  intro s hs hΓ
  refine ⟨?_, .of_imports himports s⟩
  have hreleased := hload.releases package s.session
  have hapart := hload.apart package s.session
  have hwell := hload.wellFormed package hs.session
  have hvalue := @hload.value package s.session
  have hstandard := fun n hn => @hload.standard package n hn s.session
  unfold CheckM.loadPackage
  generalize env.load package s.session = loaded at hreleased hapart hwell hvalue hstandard
  rcases loaded with ⟨r, τ⟩
  have hstate : s.Released { s with session := τ } := ⟨hreleased, rfl, rfl, rfl⟩
  cases r with
  | ok m =>
      refine ⟨hstate, ⟨hwell, hs.classes⟩, id, fun h => ?_⟩
      cases h
      refine ⟨⟨hvalue hs.session rfl, fun n hn => ?_⟩, hΓ ▸ context_of_load hreleased hapart⟩
      cases hstandard n hn
      rfl
  | error e =>
      cases e with
      | cycle => exact ⟨hstate, ⟨hwell, hs.classes⟩, id, fun h => by cases h⟩
      | unavailable reason => exact ⟨hstate, ⟨hwell, hs.classes⟩, id, fun h => by cases h⟩
      | failed errors =>
          exact ⟨⟨hreleased, rfl, rfl, rfl⟩, ⟨hwell, hs.classes⟩, Batch.reported_extend errors,
            fun h => by cases h⟩

theorem Yields.addModule (himports : env.imports) {localName : String} {m : ModuleTy}
    (hm : (Ty.moduleTy m).WellFormed D)
    (hname : ∀ p ∈ Library.onDemand, p.2 ∈ D.reserved → p.2 = localName →
      Library.standard? p.1 = some m) :
    (CheckM.addModule localName m).Yields D env Γ fun _ => True := by
  intro s hs hΓ
  exact ⟨⟨.addModule s _ _ _,
    ⟨⟨hs.session.symbols.addModule _ hm hname, hs.session.compiled⟩, hs.classes⟩, id,
    fun _ => ⟨hΓ, trivial⟩⟩, .of_imports himports s⟩

theorem Ensures.importModule (himports : env.imports) (hload : env.load.Sound D)
    {i : Source.Import} (hi : D.admits i) :
    (CheckM.importModule i).Ensures D env Γ fun _ Γ' => Γ.Imports Γ' := by
  refine (Ensures.loadPackage himports hload i.package.name i.span.line).bind fun m _ h =>
    (Yields.addModule himports h.1.1 fun p hp hreserved hspace => ?_).bind fun _ _ => .pure h.2
  -- a reserved name is given to its standard package, which loading finds
  rcases Library.standard?_of_mem_onDemand hp with ⟨n, hn⟩
  rw [h.1.2 n (D.package_of_admits hi hp hreserved hspace ▸ hn), hn]

/-!
# Operands
-/

/-- An operand that gives well-typed expressions, of a type that is accepted if it is confirmed. -/
structure Operand.Sound (D : Discipline) (env : Surroundings) (Γ : Context) (o : Operand) : Prop where
  check : o.check.Yields D env Γ fun e => e.WellTyped D Γ
  confirm : ∀ {ty : Ty}, ty.WellFormed D → (o.confirm ty).Yields D env Γ fun e =>
    e.WellTyped D Γ ∧ Γ.scopes.accepts ty e.ty

theorem adopted?_wellTyped {e : Source.Expr} {expected : Ty} {typed : Typed.Expr}
    (hexpected : expected.WellFormed D) (h : adopted? e expected = some typed) :
    typed.WellTyped D Γ := by
  unfold adopted? at h
  split at h
  · cases h
    exact .emptyList hexpected
  · cases h
    exact .emptyMap hexpected
  · cases h

theorem Operand.Sound.ofExpr (e : Source.Expr) {check : CheckM Typed.Expr}
    (h : check.Yields D env Γ fun e => e.WellTyped D Γ) :
    Operand.Sound D env Γ (.ofExpr e check) := by
  refine ⟨h, fun {ty} hty => ?_⟩
  have hadopt : (adoptOr e check ty).Yields D env Γ fun e => e.WellTyped D Γ := by
    unfold adoptOr
    cases hadopted : adopted? e ty with
    | some typed => exact .pure (adopted?_wellTyped hty hadopted)
    | none => exact h
  have haccepts (found : Ty) : (CheckM.accepts ty found).Yields D env Γ fun ok =>
      ok = Γ.scopes.accepts ty found :=
    Yields.view (fun _ => rfl) fun s _ hΓ => hΓ ▸ Env.accepts_eq env s ty found
  exact hadopt.bind fun typed htyped => (haccepts typed.ty).bind fun ok hok =>
    Yields.require.bind fun _ hrequired => Yields.pure ⟨htyped, hok ▸ hrequired⟩

end CheckM
end StaticTyping
