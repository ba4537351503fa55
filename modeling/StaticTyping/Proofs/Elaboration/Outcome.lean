import StaticTyping.Proofs.Elaboration.Relation
import StaticTyping.Proofs.Frame
import StaticTyping.Proofs.Outcome

/-!
# Names of interfaces, and what checks give

An interface is bound to its own name, and to those of variables.  Where that holds of all
namespaces, it holds after every check as well, and what the check gives can be related to the
source tree it was made from.
-/

namespace StaticTyping

open CheckM

variable {α β : Type}

/-!
# Tables
-/

section Every

variable {P : String → Ty → Prop}

def Scope.Every (P : String → Ty → Prop) (scope : Scope) : Prop :=
  ∀ name ty, scope.get? name = some ty → P name ty

def Scopes.Every (P : String → Ty → Prop) (s : Scopes) : Prop :=
  ∀ scope ∈ s.toList, Scope.Every P scope

def SymbolTable.Every (P : String → Ty → Prop) (t : SymbolTable) : Prop :=
  ∀ space s, t.spaces.get? space = some s → s.Every P

theorem Scope.Every.insert {scope : Scope} (h : Scope.Every P scope) {name : String} {ty : Ty}
    (hty : P name ty) : Scope.Every P (scope.insert name ty) := by
  intro other found hfound
  rw [Dict.get?_insert] at hfound
  split at hfound
  next heq =>
    cases hfound
    exact heq ▸ hty
  next => exact h other found hfound

namespace Scopes.Every

variable {s : Scopes}

theorem empty : Scopes.empty.Every P := by
  intro scope hscope name ty hty
  cases List.mem_singleton.mp hscope
  cases hty

theorem lookup? (h : s.Every P) {name : String} {ty : Ty} (hty : s.lookup? name = some ty) :
    P name ty := by
  rcases List.exists_of_findSome?_eq_some hty with ⟨scope, hscope, hget⟩
  exact h scope hscope name ty hget

theorem bind (h : s.Every P) {name : String} {ty : Ty} (hty : P name ty) :
    (s.bind name ty).Every P := by
  rcases s with ⟨nested, root⟩
  intro scope hscope
  cases nested with
  | nil =>
      cases List.mem_singleton.mp hscope
      exact (h root List.mem_cons_self).insert hty
  | cons inner outer =>
      rcases List.mem_cons.mp hscope with rfl | hscope
      · exact (h inner List.mem_cons_self).insert hty
      · exact h scope (List.mem_cons_of_mem _ hscope)

theorem push (h : s.Every P) : s.push.Every P := by
  intro scope hscope
  rcases List.mem_cons.mp hscope with rfl | hscope
  · intro name ty hty
    cases hty
  · exact h scope hscope

theorem pop (h : s.Every P) : s.pop.Every P := by
  intro scope hscope
  apply h
  rcases List.mem_append.mp hscope with hscope | hscope
  · exact List.mem_append_left _ (List.mem_of_mem_tail hscope)
  · exact List.mem_append_right _ hscope

end Scopes.Every

namespace SymbolTable.Every

variable {t : SymbolTable}

theorem scopesOf (h : t.Every P) (space : String) : (t.scopesOf space).Every P := by
  unfold SymbolTable.scopesOf
  cases hget : t.spaces.get? space with
  | none => exact .empty
  | some s => exact h space s hget

theorem lookup? (h : t.Every P) {space name : String} {ty : Ty}
    (hty : t.lookup? space name = some ty) : P name ty := by
  rcases Option.bind_eq_some_iff.mp hty with ⟨s, hget, hlookup⟩
  exact (h space s hget).lookup? hlookup

theorem setScopes (h : t.Every P) (space : String) {s : Scopes} (hs : s.Every P) :
    (t.setScopes space s).Every P := by
  intro other found hfound
  have hfound : (t.spaces.insert space s).get? other = some found := hfound
  rw [Dict.get?_insert] at hfound
  split at hfound
  · cases hfound
    exact hs
  · exact h other found hfound

theorem bind (h : t.Every P) (space : String) {name : String} {ty : Ty} (hty : P name ty) :
    (t.bind space name ty).Every P :=
  h.setScopes space ((h.scopesOf space).bind hty)

theorem enter (h : t.Every P) (space : String) : (t.enter space).Every P :=
  h.setScopes space (h.scopesOf space).push

theorem leave (h : t.Every P) (space : String) : (t.leave space).Every P := by
  unfold SymbolTable.leave
  split
  · exact h
  next s _ hget => exact h.setScopes space (h space s hget).pop
  · exact h

end SymbolTable.Every

end Every

/-- A name that stands for an interface is the name of the interface, or one that variables may
have. -/
def Ty.CalledBy (vars : String → Bool) (name : String) (ty : Ty) : Prop :=
  ∀ i, ty = .interfaceTy i → i.name = name ∨ vars name

/-- Interfaces are called by their own names in all namespaces of a session, apart from names that
variables may have. -/
def Session.Calls (vars : String → Bool) (σ : Session) : Prop :=
  σ.symbols.Every (Ty.CalledBy vars)

theorem Session.calls_all (σ : Session) : σ.Calls fun _ => true :=
  fun _ _ _ _ _ _ _ _ _ _ => .inr rfl

/-!
# Checks
-/

def CheckM.Gives (vars : String → Bool) (env : Env) (x : CheckM α) (Q : α → Prop) : Prop :=
  ∀ s : State, s.session.Calls vars →
    (x env s).2.session.Calls vars ∧ ∀ a, (x env s).1 = .ok a → Q a

namespace CheckM.Gives

variable {vars : String → Bool} {env : Env} {Q Q' : α → Prop} {R : β → Prop}

theorem pure {a : α} (h : Q a) : (pure a : CheckM α).Gives vars env Q := by
  intro s hs
  constructor
  · exact hs
  · intro b hb
    cases hb
    exact h

theorem fail (cause : Cause) (line : UInt32) :
    (CheckM.fail cause line : CheckM α).Gives vars env Q := by
  intro s hs
  constructor
  · exact hs
  · intro b hb
    cases hb

theorem view {f : Env → State → α} (h : ∀ s, s.session.Calls vars → Q (f env s)) :
    (CheckM.view f).Gives vars env Q := by
  intro s hs
  constructor
  · exact hs
  · intro b hb
    cases hb
    exact h s hs

theorem anyView {f : Env → State → α} : (CheckM.view f).Gives vars env fun _ => True :=
  view fun _ _ => trivial

theorem bind {x : CheckM α} {f : α → CheckM β} (hx : x.Gives vars env Q)
    (hf : ∀ a, Q a → (f a).Gives vars env R) : (x >>= f).Gives vars env R := by
  intro s hs
  rcases hx s hs with ⟨ht, hvalue⟩
  rcases hrun : x env s with ⟨r, t⟩
  rw [hrun] at ht hvalue
  cases r with
  | ok a =>
      rw [bind_apply_of_ok hrun]
      exact hf a (hvalue a rfl) t ht
  | error e =>
      rw [bind_apply_of_error hrun]
      constructor
      · exact ht
      · intro b hb
        cases hb

theorem mono {x : CheckM α} (hx : x.Gives vars env Q) (h : ∀ a, Q a → Q' a) :
    x.Gives vars env Q' :=
  fun s hs => ⟨(hx s hs).1, fun a ha => h a ((hx s hs).2 a ha)⟩

theorem map {x : CheckM α} {f : α → β} (hx : x.Gives vars env Q) (h : ∀ a, Q a → R (f a)) :
    (f <$> x).Gives vars env R := by
  rw [← bind_pure_comp]
  exact hx.bind fun a ha => .pure (h a ha)

theorem require {ok : Bool} {cause : Cause} {line : UInt32} :
    (CheckM.require ok cause line).Gives vars env fun _ => ok = true := by
  unfold CheckM.require
  cases ok with
  | true => exact .pure rfl
  | false => exact .fail cause line

theorem orFail {o : Option α} {cause : Cause} {line : UInt32} :
    (CheckM.orFail o cause line).Gives vars env fun a => o = some a := by
  cases o with
  | none => exact .fail cause line
  | some a => exact .pure rfl

theorem mapCause {x : CheckM α} (hx : x.Gives vars env Q) (f : Cause → Cause) :
    (CheckM.mapCause f x).Gives vars env Q := by
  intro s hs
  have h := hx s hs
  unfold CheckM.mapCause
  rcases hrun : x env s with ⟨r, t⟩
  rw [hrun] at h
  cases r with
  | ok a => exact h
  | error e =>
      constructor
      · exact h.1
      · intro a ha
        cases ha

theorem collect {S : β → α → Prop} {bs : List β} {xs : List (CheckM α)}
    (h : List.Forall₂ (fun b x => x.Gives vars env (S b)) bs xs) :
    (CheckM.collect xs).Gives vars env (List.Forall₂ S bs) := by
  induction h with
  | nil => exact .pure .nil
  | cons hx _ ih => exact hx.bind fun a ha => ih.bind fun as has => .pure (.cons ha has)

theorem optional {S : β → α → Prop} {o : Option β} {x : Option (CheckM α)}
    (h : Option.Rel (fun b x => x.Gives vars env (S b)) o x) :
    (CheckM.optional x).Gives vars env (Option.Rel S o) := by
  cases h with
  | none => exact .pure .none
  | some hx => exact hx.bind fun a ha => .pure (.some ha)

theorem around {enter leave : Env → State → State} {x : CheckM α} (hx : x.Gives vars env Q)
    (henter : ∀ s, s.session.Calls vars → (enter env s).session.Calls vars)
    (hleave : ∀ s, s.session.Calls vars → (leave env s).session.Calls vars) :
    (CheckM.around enter leave x).Gives vars env Q := by
  intro s hs
  rcases hx (enter env s) (henter s hs) with ⟨ht, hvalue⟩
  exact ⟨hleave _ ht, hvalue⟩

theorem inScope {x : CheckM α} (hx : x.Gives vars env Q) : (CheckM.inScope x).Gives vars env Q :=
  hx.around (fun _ hs => SymbolTable.Every.enter hs env.space)
    fun _ hs => SymbolTable.Every.leave hs env.space

theorem inStmt (c : StmtContext) {x : CheckM α} (hx : x.Gives vars env Q) :
    (CheckM.inStmt c x).Gives vars env Q :=
  hx.around (fun _ hs => hs) fun _ hs => hs

theorem inExpr (c : ExprContext) {x : CheckM α} (hx : x.Gives vars env Q) :
    (CheckM.inExpr c x).Gives vars env Q :=
  hx.around (fun _ hs => hs) fun _ hs => hs

theorem inClass (c : ClassTy) {x : CheckM α} (hx : x.Gives vars env Q) :
    (CheckM.inClass c x).Gives vars env Q :=
  hx.around (fun _ hs => hs) fun _ hs => hs

theorem declare {name : String} {ty : Ty} (h : ty.CalledBy vars name) :
    (CheckM.declare name ty).Gives vars env fun _ => True := by
  intro s hs
  constructor
  · exact SymbolTable.Every.bind hs env.space h
  · exact fun _ _ => trivial

theorem declareAll {bindings : List (String × Ty)} (h : ∀ b ∈ bindings, b.2.CalledBy vars b.1) :
    (CheckM.declareAll bindings).Gives vars env fun _ => True := by
  induction bindings with
  | nil => exact .pure trivial
  | cons b rest ih =>
      have hb := h b List.mem_cons_self
      exact (declare hb).bind fun _ _ => ih fun c hc => h c (List.mem_cons_of_mem _ hc)

theorem attempt {x : CheckM α} (hx : x.Gives vars env Q) :
    (CheckM.attempt x).Gives vars env fun o => ∀ a, o = some a → Q a := by
  intro s hs
  rcases hx s hs with ⟨ht, hvalue⟩
  unfold CheckM.attempt
  rcases hrun : x env s with ⟨r, t⟩
  rw [hrun] at ht hvalue
  cases r with
  | ok a =>
      constructor
      · exact ht
      · intro o ho b hb
        cases ho
        cases hb
        exact hvalue a rfl
  | error e =>
      constructor
      · exact ht
      · intro o ho b hb
        cases ho
        cases hb

/-!
# Names
-/

theorem valueOf (name : String) (line : UInt32) :
    (CheckM.valueOf name line).Gives vars env (Ty.CalledBy vars name) := by
  have hview : (CheckM.view fun env s => env.value? s.session.symbols name).Gives vars env
      fun o => ∀ ty, o = some ty → ty.CalledBy vars name := by
    apply view
    intro s hs ty hty
    unfold Env.value? Env.find? at hty
    split at hty
    next found hfound =>
      cases hty
      split at hfound
      next hprelude =>
        cases hfound
        exact hs.lookup? hprelude
      next => exact hs.lookup? hfound
    next =>
      rcases Option.map_eq_some_iff.mp hty with ⟨scope, _, rfl⟩
      intro i hi
      cases hi
  exact hview.bind fun o ho => orFail.mono fun ty hty => ho ty hty

theorem resolveTy {written : Ty} {line : UInt32} :
    (CheckM.resolveTy written line).Gives vars env written.ReadAs := by
  have hview : (CheckM.view fun env s => written.resolve (env.typeName? s.session.symbols)).Gives
      vars env fun r => ∀ ty, r = .ok ty → written.ReadAs ty :=
    view fun s _ ty hty => ⟨env.typeName? s.session.symbols, hty⟩
  apply hview.bind
  intro r hr
  cases r with
  | ok ty => exact .pure (hr ty rfl)
  | error name => exact .fail _ _

theorem resultTy {ret : Option Ty} {line : UInt32} :
    (CheckM.resultTy ret line).Gives vars env (Ty.IsResult ret) := by
  cases ret with
  | none => exact .pure rfl
  | some written => exact resolveTy

theorem variableTy (name : Ident) : (CheckM.variableTy name).Gives vars env fun _ => True := by
  apply (valueOf name.name name.line).bind
  intro found _
  have hdeferred : (CheckM.deferredTy found name.line).Gives vars env fun _ => True := by
    cases found with
    | unknown deferred => exact (valueOf deferred name.line).mono fun _ _ => trivial
    | _ => exact .pure trivial
  exact hdeferred.bind fun ty _ => require.bind fun _ _ => .pure trivial

theorem importStandard (package localName : String) :
    (CheckM.importStandard package localName).Gives vars env fun _ => True := by
  intro s hs
  rw [importStandard_apply]
  constructor
  · show SymbolTable.Every _ (s.session.symbols.addStandard env.file package localName)
    unfold SymbolTable.addStandard
    split <;> exact hs
  · exact fun _ _ => trivial

end CheckM.Gives
end StaticTyping
