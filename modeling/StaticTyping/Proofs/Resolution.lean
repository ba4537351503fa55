import StaticTyping.Proofs.Formation

/-!
# What resolving a type gives

A written type is resolved by putting a class or an interface in the place of each name that has
not been looked up.  Whether this succeeds, and at which name it fails, is told by the names of the
type, from left to right.  Nothing else of the type changes, and what comes out has no such names
left.
-/

namespace StaticTyping

/-!
# What a written name stands for
-/

theorem bne_dot_of_not_mem {cs : List Char} (h : '.' ∉ cs) : ∀ c ∈ cs, (c != '.') = true := by
  intro c hc
  exact bne_iff_ne.mpr fun hdot => h (hdot ▸ hc)

theorem splitDot?_of_not_mem {name : String} (h : '.' ∉ name.toList) : splitDot? name = none := by
  have hdrop : name.toList.dropWhile (· != '.') = [] := by
    rw [← List.append_nil name.toList, List.dropWhile_append_of_pos (bne_dot_of_not_mem h)]
    rfl
  unfold splitDot?
  rw [hdrop]

theorem splitDot?_append {localName : String} (h : '.' ∉ localName.toList) (member : String) :
    splitDot? (localName ++ "." ++ member) = some (localName, member) := by
  have hchars : (localName ++ "." ++ member).toList =
      localName.toList ++ '.' :: member.toList := by
    rw [String.toList_append, String.toList_append, List.append_assoc]
    rfl
  have hdrop : (localName ++ "." ++ member).toList.dropWhile (· != '.') =
      '.' :: member.toList := by
    rw [hchars, List.dropWhile_append_of_pos (bne_dot_of_not_mem h)]
    rfl
  have htake : (localName ++ "." ++ member).toList.takeWhile (· != '.') = localName.toList := by
    rw [hchars, List.takeWhile_append_of_pos (bne_dot_of_not_mem h)]
    exact List.append_nil _
  unfold splitDot?
  rw [hdrop, htake, String.ofList_toList]
  dsimp only
  rw [String.ofList_toList]

theorem dotless_or_dotted (name : String) :
    '.' ∉ name.toList ∨
      ∃ localName member, '.' ∉ localName.toList ∧ name = localName ++ "." ++ member := by
  by_cases h : '.' ∈ name.toList
  · rcases List.eq_append_cons_of_mem h with ⟨before, rest, hname, hbefore⟩
    refine .inr ⟨String.ofList before, String.ofList rest, ?_, ?_⟩
    · rw [String.toList_ofList]
      exact hbefore
    · apply String.toList_inj.mp
      simp [hname]
  · exact .inl h

inductive Ty.Nominal : Ty → Prop where
  | classTy (c : ClassTy) : Ty.Nominal (.classTy c)
  | interfaceTy (i : InterfaceTy) : Ty.Nominal (.interfaceTy i)

theorem Ty.nominal?_eq_some_iff {t u : Ty} : t.nominal? = some u ↔ t = u ∧ u.Nominal := by
  constructor
  · intro h
    cases t with
    | classTy c =>
        cases h
        exact ⟨rfl, .classTy c⟩
    | interfaceTy i =>
        cases h
        exact ⟨rfl, .interfaceTy i⟩
    | _ => cases h
  · intro h
    rcases h with ⟨rfl, hnominal⟩
    cases hnominal <;> rfl

/--
What a written name stands for: a class or an interface that is bound to the name, or that an import
has under the part of the name behind its first dot, if the import's local name is the part before
it.
-/
inductive Env.Denotes (env : Env) (symbols : SymbolTable) : String → Ty → Prop where
  | plain {name : String} {ty : Ty} : '.' ∉ name.toList →
      env.find? symbols name = some ty → ty.Nominal → Env.Denotes env symbols name ty
  | dotted {localName member : String} {scope : Scope} {ty : Ty} : '.' ∉ localName.toList →
      env.imported? symbols localName = some scope → scope.get? member = some ty → ty.Nominal →
      Env.Denotes env symbols (localName ++ "." ++ member) ty

theorem Env.typeName?_of_not_mem {env : Env} {symbols : SymbolTable} {name : String}
    (h : '.' ∉ name.toList) :
    env.typeName? symbols name = (env.find? symbols name).bind Ty.nominal? := by
  unfold Env.typeName?
  rw [splitDot?_of_not_mem h]

theorem Env.typeName?_append {env : Env} {symbols : SymbolTable} {localName : String}
    (h : '.' ∉ localName.toList) (member : String) :
    env.typeName? symbols (localName ++ "." ++ member) =
      (env.imported? symbols localName).bind fun scope =>
        (scope.get? member).bind Ty.nominal? := by
  unfold Env.typeName?
  rw [splitDot?_append h]

theorem Env.typeName?_eq_some_iff {env : Env} {symbols : SymbolTable} {name : String} {ty : Ty} :
    env.typeName? symbols name = some ty ↔ env.Denotes symbols name ty := by
  constructor
  · intro h
    rcases dotless_or_dotted name with hname | ⟨localName, member, hname, rfl⟩
    · rw [typeName?_of_not_mem hname] at h
      rcases Option.bind_eq_some_iff.mp h with ⟨found, hfound, h⟩
      rcases Ty.nominal?_eq_some_iff.mp h with ⟨rfl, hnominal⟩
      exact .plain hname hfound hnominal
    · rw [typeName?_append hname] at h
      rcases Option.bind_eq_some_iff.mp h with ⟨scope, hscope, h⟩
      rcases Option.bind_eq_some_iff.mp h with ⟨found, hfound, h⟩
      rcases Ty.nominal?_eq_some_iff.mp h with ⟨rfl, hnominal⟩
      exact .dotted hname hscope hfound hnominal
  · intro h
    cases h with
    | plain hname hfound hnominal =>
        rw [typeName?_of_not_mem hname, hfound]
        exact Ty.nominal?_eq_some_iff.mpr ⟨rfl, hnominal⟩
    | dotted hname hscope hfound hnominal =>
        rw [typeName?_append hname, hscope, Option.bind_some, hfound]
        exact Ty.nominal?_eq_some_iff.mpr ⟨rfl, hnominal⟩

theorem Env.isSome_typeName?_iff {env : Env} {symbols : SymbolTable} {name : String} :
    (env.typeName? symbols name).isSome ↔ ∃ ty, env.Denotes symbols name ty := by
  rw [Option.isSome_iff_exists]
  exact exists_congr fun _ => typeName?_eq_some_iff

/-!
# Types in the place of names
-/

mutual

/-- A type with other types in the place of the names that are to be looked up. -/
def Ty.fill (f : String → Ty) : Ty → Ty
  | .unknown name => f name
  | .list elem => .list (elem.fill f)
  | .map key value => .map (key.fill f) (value.fill f)
  | .tuple items => .tuple (Ty.fillAll f items)
  | .function ⟨params, ret⟩ => .function ⟨Param.fillAll f params, ret.fill f⟩
  | t => t
termination_by structural t => t

def Ty.fillAll (f : String → Ty) : List Ty → List Ty
  | [] => []
  | t :: ts => t.fill f :: Ty.fillAll f ts
termination_by structural ts => ts

def Param.fillAll (f : String → Ty) : List Param → List Param
  | [] => []
  | ⟨name, ty, variadic, default⟩ :: ps =>
      ⟨name, ty.fill f, variadic, default⟩ :: Param.fillAll f ps
termination_by structural ps => ps

end

section

variable (f : String → Ty)

mutual

theorem Ty.names_fill : ∀ t : Ty, (t.fill f).names = t.names.flatMap fun name => (f name).names
  | .unknown name => (List.append_nil _).symm
  | .list elem => elem.names_fill
  | .map key value => by
      rw [Ty.names, List.flatMap_append, ← key.names_fill, ← value.names_fill]
      rfl
  | .tuple items => Ty.allNames_fillAll items
  | .function ⟨params, ret⟩ => by
      rw [Ty.names, List.flatMap_append, ← Param.allNames_fillAll params, ← ret.names_fill]
      rfl
  | .int | .float | .string | .bool | .char | .nil | .any | .noValue | .error | .named _
  | .classTy _ | .interfaceTy _ | .moduleTy _ => rfl
termination_by structural t => t

theorem Ty.allNames_fillAll : ∀ ts : List Ty,
    Ty.allNames (Ty.fillAll f ts) = (Ty.allNames ts).flatMap fun name => (f name).names
  | [] => rfl
  | t :: ts => by
      rw [Ty.allNames, List.flatMap_append, ← t.names_fill, ← Ty.allNames_fillAll ts]
      rfl
termination_by structural ts => ts

theorem Param.allNames_fillAll : ∀ ps : List Param,
    Param.allNames (Param.fillAll f ps) = (Param.allNames ps).flatMap fun name => (f name).names
  | [] => rfl
  | ⟨_, ty, _, _⟩ :: ps => by
      rw [Param.allNames, List.flatMap_append, ← ty.names_fill, ← Param.allNames_fillAll ps]
      rfl
termination_by structural ps => ps

end

end

section

variable {f : String → Ty}

mutual

theorem Ty.fill_eq_self : ∀ t : Ty, (∀ name ∈ t.names, f name = .unknown name) → t.fill f = t
  | .unknown name, h => h name List.mem_cons_self
  | .list elem, h => congrArg Ty.list (elem.fill_eq_self h)
  | .map key value, h => by
      rcases List.forall_mem_append.mp h with ⟨hkey, hvalue⟩
      rw [Ty.fill, key.fill_eq_self hkey, value.fill_eq_self hvalue]
  | .tuple items, h => congrArg Ty.tuple (Ty.fillAll_eq_self items h)
  | .function ⟨params, ret⟩, h => by
      rcases List.forall_mem_append.mp h with ⟨hparams, hret⟩
      rw [Ty.fill, Param.fillAll_eq_self params hparams, ret.fill_eq_self hret]
  | .int, _ | .float, _ | .string, _ | .bool, _ | .char, _ | .nil, _ | .any, _ | .noValue, _
  | .error, _ | .named _, _ | .classTy _, _ | .interfaceTy _, _ | .moduleTy _, _ => rfl
termination_by structural t => t

theorem Ty.fillAll_eq_self : ∀ ts : List Ty,
    (∀ name ∈ Ty.allNames ts, f name = .unknown name) → Ty.fillAll f ts = ts
  | [], _ => rfl
  | t :: ts, h => by
      rcases List.forall_mem_append.mp h with ⟨ht, hts⟩
      rw [Ty.fillAll, t.fill_eq_self ht, Ty.fillAll_eq_self ts hts]
termination_by structural ts => ts

theorem Param.fillAll_eq_self : ∀ ps : List Param,
    (∀ name ∈ Param.allNames ps, f name = .unknown name) → Param.fillAll f ps = ps
  | [], _ => rfl
  | ⟨_, ty, _, _⟩ :: ps, h => by
      rcases List.forall_mem_append.mp h with ⟨hty, hps⟩
      rw [Param.fillAll, ty.fill_eq_self hty, Param.fillAll_eq_self ps hps]
termination_by structural ps => ps

end

end

mutual

theorem Ty.hasUnknown_eq_false_iff : ∀ t : Ty, t.hasUnknown = false ↔ t.names = []
  | .unknown name => by simp [Ty.hasUnknown, Ty.names]
  | .list elem => elem.hasUnknown_eq_false_iff
  | .map key value =>
      Bool.or_eq_false_iff.trans
        ((and_congr key.hasUnknown_eq_false_iff value.hasUnknown_eq_false_iff).trans
          List.append_eq_nil_iff.symm)
  | .tuple items => Ty.anyHasUnknown_eq_false_iff items
  | .function ⟨params, ret⟩ =>
      Bool.or_eq_false_iff.trans (And.comm.trans
        ((and_congr (Ty.paramsHaveUnknown_eq_false_iff params) ret.hasUnknown_eq_false_iff).trans
          List.append_eq_nil_iff.symm))
  | .int | .float | .string | .bool | .char | .nil | .any | .noValue | .error | .named _
  | .classTy _ | .interfaceTy _ | .moduleTy _ => iff_of_true rfl rfl
termination_by structural t => t

theorem Ty.anyHasUnknown_eq_false_iff : ∀ ts : List Ty,
    Ty.anyHasUnknown ts = false ↔ Ty.allNames ts = []
  | [] => iff_of_true rfl rfl
  | t :: ts =>
      Bool.or_eq_false_iff.trans
        ((and_congr t.hasUnknown_eq_false_iff (Ty.anyHasUnknown_eq_false_iff ts)).trans
          List.append_eq_nil_iff.symm)
termination_by structural ts => ts

theorem Ty.paramsHaveUnknown_eq_false_iff : ∀ ps : List Param,
    Ty.paramsHaveUnknown ps = false ↔ Param.allNames ps = []
  | [] => iff_of_true rfl rfl
  | ⟨_, ty, _, _⟩ :: ps =>
      Bool.or_eq_false_iff.trans
        ((and_congr ty.hasUnknown_eq_false_iff (Ty.paramsHaveUnknown_eq_false_iff ps)).trans
          List.append_eq_nil_iff.symm)
termination_by structural ps => ps

end

theorem Ty.Nominal.names_eq_nil {t : Ty} (h : t.Nominal) : t.names = [] := by
  cases h <;> rfl

/-!
# Resolving
-/

section

variable {α β : Type} {look : String → Option Ty} {names others : List String}

def unlessMissing (look : String → Option Ty) (names : List String) (a : α) : Except String α :=
  match names.find? fun name => (look name).isNone with
  | some name => .error name
  | none => .ok a

theorem unlessMissing_bind {a : α} {b : β} {g : α → Except String β}
    (h : g a = unlessMissing look others b) :
    unlessMissing look names a >>= g = unlessMissing look (names ++ others) b := by
  unfold unlessMissing at *
  rw [List.find?_append]
  cases names.find? fun name => (look name).isNone with
  | some name => rfl
  | none => exact h

theorem unlessMissing_map {a : α} (g : α → β) :
    (unlessMissing look names a >>= fun a => pure (g a)) = unlessMissing look names (g a) := by
  have h : (unlessMissing look names a >>= fun a => pure (g a)) =
      unlessMissing look (names ++ []) (g a) := unlessMissing_bind rfl
  rwa [List.append_nil] at h

theorem unlessMissing_of_forall (h : ∀ name ∈ names, (look name).isSome) (a : α) :
    unlessMissing look names a = .ok a := by
  have hnone : (names.find? fun name => (look name).isNone) = none := by
    apply List.find?_eq_none.mpr
    intro name hname hmissing
    rw [← Option.not_isSome, h name hname] at hmissing
    cases hmissing
  rw [unlessMissing, hnone]

theorem unlessMissing_of_first {name : String} (h : ∀ other ∈ names, (look other).isSome)
    (hname : look name = none) (a : α) :
    unlessMissing look (names ++ name :: others) a = .error name := by
  have hfirst : ((names ++ name :: others).find? fun name => (look name).isNone) = some name := by
    apply List.find?_eq_some_iff_append.mpr
    refine ⟨Option.isNone_iff_eq_none.mpr hname, names, others, rfl, fun other hother => ?_⟩
    rw [Option.not_isNone]
    exact h other hother
  rw [unlessMissing, hfirst]

theorem forall_isSome_or_exists_first (look : String → Option Ty) (names : List String) :
    (∀ name ∈ names, (look name).isSome) ∨
      ∃ before name after, names = before ++ name :: after ∧
        (∀ other ∈ before, (look other).isSome) ∧ look name = none := by
  induction names with
  | nil => exact .inl (List.forall_mem_nil _)
  | cons name names ih =>
      cases hname : look name with
      | none => exact .inr ⟨[], name, names, rfl, List.forall_mem_nil _, hname⟩
      | some ty =>
          have hfound : (look name).isSome := by rw [hname, Option.isSome_some]
          rcases ih with hall | ⟨before, missing, after, rfl, hbefore, hmissing⟩
          · exact .inl (List.forall_mem_cons.mpr ⟨hfound, hall⟩)
          · exact .inr ⟨name :: before, missing, after, rfl,
              List.forall_mem_cons.mpr ⟨hfound, hbefore⟩, hmissing⟩

end

def foundOrUnknown (look : String → Option Ty) (name : String) : Ty :=
  (look name).getD (.unknown name)

mutual

theorem Ty.resolve_eq (look : String → Option Ty) : ∀ t : Ty,
    t.resolve look = unlessMissing look t.names (t.fill (foundOrUnknown look))
  | .unknown name => by
      rw [Ty.resolve, Ty.fill, foundOrUnknown]
      cases hname : look name with
      | none => exact (unlessMissing_of_first (List.forall_mem_nil _) hname _).symm
      | some found =>
          have hfound : ∀ other ∈ [name], (look other).isSome := by simp [hname]
          exact (unlessMissing_of_forall hfound _).symm
  | .list elem => by
      rw [Ty.resolve, elem.resolve_eq look]
      exact unlessMissing_map _
  | .map key value => by
      rw [Ty.resolve, key.resolve_eq look, value.resolve_eq look]
      exact unlessMissing_bind (unlessMissing_map _)
  | .tuple items => by
      rw [Ty.resolve, Ty.resolveAll_eq look items]
      exact unlessMissing_map _
  | .function ⟨params, ret⟩ => by
      rw [Ty.resolve, Param.resolveAll_eq look params, ret.resolve_eq look]
      exact unlessMissing_bind (unlessMissing_map _)
  | .int | .float | .string | .bool | .char | .nil | .any | .noValue | .error | .named _
  | .classTy _ | .interfaceTy _ | .moduleTy _ => rfl
termination_by structural t => t

theorem Ty.resolveAll_eq (look : String → Option Ty) : ∀ ts : List Ty,
    Ty.resolveAll look ts =
      unlessMissing look (Ty.allNames ts) (Ty.fillAll (foundOrUnknown look) ts)
  | [] => rfl
  | t :: ts => by
      rw [Ty.resolveAll, t.resolve_eq look, Ty.resolveAll_eq look ts]
      exact unlessMissing_bind (unlessMissing_map _)
termination_by structural ts => ts

theorem Param.resolveAll_eq (look : String → Option Ty) : ∀ ps : List Param,
    Param.resolveAll look ps =
      unlessMissing look (Param.allNames ps) (Param.fillAll (foundOrUnknown look) ps)
  | [] => rfl
  | ⟨_, ty, _, _⟩ :: ps => by
      rw [Param.resolveAll, ty.resolve_eq look, Param.resolveAll_eq look ps]
      exact unlessMissing_bind (unlessMissing_map _)
termination_by structural ps => ps

end

example : (Ty.function ⟨[⟨"x", .list (.unknown "A"), false, none⟩], .unknown "B"⟩).resolve
    (fun _ => none) = .error "A" :=
  rfl

namespace CheckM

variable {env : Env} {s : State} {ty : Ty}

theorem denotes_foundOrUnknown {name : String}
    (h : (env.typeName? s.session.symbols name).isSome) :
    env.Denotes s.session.symbols name (foundOrUnknown (env.typeName? s.session.symbols) name) := by
  rcases Option.isSome_iff_exists.mp h with ⟨found, hfound⟩
  rw [foundOrUnknown, hfound]
  exact Env.typeName?_eq_some_iff.mp hfound

theorem resolveTy_apply (ty : Ty) (line : UInt32) (env : Env) (s : State) :
    resolveTy ty line env s =
      ((ty.resolve (env.typeName? s.session.symbols)).mapError fun name =>
        ⟨.unknownVariable name, line⟩, s) := by
  have hview : (view fun env s => ty.resolve (env.typeName? s.session.symbols)) env s =
      (.ok (ty.resolve (env.typeName? s.session.symbols)), s) := rfl
  unfold resolveTy
  rw [bind_apply_of_ok hview]
  cases ty.resolve (env.typeName? s.session.symbols) <;> rfl

theorem resolveTy_of_forall
    (h : ∀ name ∈ ty.names, (env.typeName? s.session.symbols name).isSome) (line : UInt32) :
    resolveTy ty line env s =
      (.ok (ty.fill (foundOrUnknown (env.typeName? s.session.symbols))), s) := by
  rw [resolveTy_apply, Ty.resolve_eq, unlessMissing_of_forall h]
  rfl

theorem resolveTy_of_first {before after : List String} {name : String}
    (hnames : ty.names = before ++ name :: after)
    (hbefore : ∀ other ∈ before, (env.typeName? s.session.symbols other).isSome)
    (hname : env.typeName? s.session.symbols name = none) (line : UInt32) :
    resolveTy ty line env s = (.error ⟨.unknownVariable name, line⟩, s) := by
  rw [resolveTy_apply, Ty.resolve_eq, hnames, unlessMissing_of_first hbefore hname]
  rfl

theorem resolveTy_of_names_eq_nil (h : ty.names = []) (line : UInt32) (env : Env) (s : State) :
    resolveTy ty line env s = (.ok ty, s) := by
  have hall : ∀ name ∈ ty.names, (env.typeName? s.session.symbols name).isSome := by simp [h]
  have hself : ty.fill (foundOrUnknown (env.typeName? s.session.symbols)) = ty := by
    apply ty.fill_eq_self
    simp [h]
  rw [resolveTy_of_forall hall, hself]

theorem names_fill_eq_nil {f : String → Ty}
    (h : ∀ name ∈ ty.names, env.Denotes s.session.symbols name (f name)) :
    (ty.fill f).names = [] := by
  rw [Ty.names_fill, List.flatMap_eq_nil_iff]
  intro name hname
  cases h name hname with
  | plain _ _ hnominal => exact hnominal.names_eq_nil
  | dotted _ _ _ hnominal => exact hnominal.names_eq_nil

/--
Resolving a type is exact.  It succeeds exactly if every name in the type that is to be looked up
stands for a class or an interface.  If it does, the result is the type with these in the place of
the names; no such name is found in it, and resolving it again changes nothing.  If it does not, the
fault names the first of the names, from left to right, that stands for none.  The state is left as
it was.
-/
theorem resolveTy_exact (ty : Ty) (line : UInt32) (env : Env) (s : State) :
    ((∃ found, (resolveTy ty line env s).1 = .ok found) ↔
      ∀ name ∈ ty.names, ∃ found, env.Denotes s.session.symbols name found) ∧
    (∀ found, (resolveTy ty line env s).1 = .ok found →
      (∃ f, (∀ name ∈ ty.names, env.Denotes s.session.symbols name (f name)) ∧
        found = ty.fill f) ∧
      found.hasUnknown = false ∧
      ∀ line' env' s', resolveTy found line' env' s' = (.ok found, s')) ∧
    (∀ fault, (resolveTy ty line env s).1 = .error fault →
      ∃ before name after, ty.names = before ++ name :: after ∧
        (∀ other ∈ before, ∃ found, env.Denotes s.session.symbols other found) ∧
        (¬∃ found, env.Denotes s.session.symbols name found) ∧
        fault = ⟨.unknownVariable name, line⟩) ∧
    (resolveTy ty line env s).2 = s := by
  rcases forall_isSome_or_exists_first (env.typeName? s.session.symbols) ty.names with
    hall | ⟨before, name, after, hnames, hbefore, hname⟩
  · have hdenotes : ∀ name ∈ ty.names, env.Denotes s.session.symbols name
        (foundOrUnknown (env.typeName? s.session.symbols) name) :=
      fun name hname => denotes_foundOrUnknown (hall name hname)
    have hnil := names_fill_eq_nil hdenotes
    rw [resolveTy_of_forall hall]
    refine ⟨iff_of_true ⟨_, rfl⟩ fun name hname => ⟨_, hdenotes name hname⟩, ?_, ?_, rfl⟩
    · intro found hfound
      cases hfound
      exact ⟨⟨_, hdenotes, rfl⟩, (Ty.hasUnknown_eq_false_iff _).mpr hnil,
        resolveTy_of_names_eq_nil hnil⟩
    · intro fault hfault
      cases hfault
  · have hmissing : ¬∃ found, env.Denotes s.session.symbols name found := by
      rw [← Env.isSome_typeName?_iff, hname]
      exact Bool.false_ne_true
    rw [resolveTy_of_first hnames hbefore hname]
    refine ⟨iff_of_false ?_ ?_, ?_, ?_, rfl⟩
    · intro hok
      rcases hok with ⟨_, hfound⟩
      cases hfound
    · intro hall
      have hmem : name ∈ ty.names := hnames ▸ List.mem_append_cons_self
      exact hmissing (hall name hmem)
    · intro found hfound
      cases hfound
    · intro fault hfault
      cases hfault
      exact ⟨before, name, after, hnames,
        fun other hother => Env.isSome_typeName?_iff.mp (hbefore other hother), hmissing, rfl⟩

end CheckM
end StaticTyping
