/-
ReminderExpr.Proofs.CallsOnWords — built-in functions, computed with machine
words.

`onWords` takes the arguments of a function by their places, tables by computed
positions and texts by bytes, and counts with words. Wherever the number of
arguments is one that the function accepts, the arguments have as many bits as
their kinds allow and the shift from universal time is within its bounds,
everything that it does is possible, and its value or failure is that of the
function.

* `choose_eq`, `iif_eq`, `extreme_eq` — arguments that are picked by computed places;
* `ShiftWithin.set` — the shift stays within its bounds;
* `onWords_eq`, `calls_are_possible` — all functions.
-/
import ReminderExpr.Proofs.DateCallsOnWords
import ReminderExpr.Proofs.Settings
import ReminderExpr.Proofs.StringsOnWords

namespace ReminderExpr.Words

open Calendar Choice Dates Strings

variable {env : Environment} {functions : UserFunctions} {v : Value} {vs : List Value}

/-! ## Choices -/

def choose (vs : List Value) : Checked Value := do
  let n ← intAt vs 0
  let last ← less vs.length 1
  item vs (← clamp n.toNat 1 last)

/-- The place of the value after the first true condition, or `last`. -/
def pick (last pair : Nat) : List Value → Checked Nat
  | condition :: _ :: rest => do
      if ← ofResult (truth condition) then pure (pair * 2 + 1) else pick last (pair + 1) rest
  | _ => pure last

def iif (vs : List Value) : Checked Value := do
  if vs.length % 2 = 0 then throw .iifOdd
  else do
    let last ← less vs.length 1
    item vs (← pick last 0 vs)

/-- The place of the extreme of a list, of which the values before `place` have
been looked at. -/
def extremePlace (wanted : Ordering) (vs : List Value) (kind : ValueKind) (best place : Nat) :
    List Value → Checked Nat
  | [] => pure best
  | v :: rest => do
      if v.kind ≠ kind then throw .badType
      else do
        let ordering := v.order (← item vs best)
        extremePlace wanted vs kind (if ordering = wanted then place else best) (place + 1) rest

def extreme (wanted : Ordering) (vs : List Value) : Checked Value := do
  let kind := (← item vs 0).kind
  item vs (← extremePlace wanted vs kind 0 1 (vs.drop 1))

theorem choose_eq (v w : Value) (vs : List Value) :
    choose (v :: w :: vs) = ofResult (Builtin.apply env functions .choose (v :: w :: vs)) := by
  cases v with
  | int n =>
    have hplace : min (n - 1).toNat ((w :: vs).length - 1) < (w :: vs).length := by
      rw [List.length_cons]
      omega
    have hclamp : max 1 (min n.toNat ((w :: vs).length + 1 - 1))
        = min (n - 1).toNat ((w :: vs).length - 1) + 1 := by
      rw [List.length_cons]
      omega
    have hchosen := List.getElem?_eq_getElem hplace
    rw [choose, intAt_zero, Value.asInt, ofResult_ok, pure_bind, List.length_cons,
      less_eq (Nat.le_add_left 1 _), pure_bind, clamp_eq (by simp), pure_bind, hclamp,
      item_succ, item_eq hchosen]
    show _ = ofResult (((chosen n (w :: vs)).map Except.ok).getD _)
    rw [chosen, hchosen]
    rfl
  | _ => rfl

/-- The place is the one that the walk over the pairs comes to. -/
theorem pick_eq (last : Nat) : ∀ (pair : Nat) (vs : List Value),
    pick last pair vs = ofResult (pickedPlace last pair vs)
  | _, [] => rfl
  | _, [_] => rfl
  | pair, _ :: _ :: rest => by
      refine ofResult_bind fun holds _ => ?_
      cases holds with
      | true => rfl
      | false => exact pick_eq last (pair + 1) rest

theorem iif_eq (vs : List Value) :
    iif vs = ofResult (Builtin.apply env functions .iif vs) := by
  obtain ⟨r, hr⟩ := Option.isSome_iff_exists.1 (Builtin.isSome_iifOf vs)
  show _ = ofResult ((iifOf vs).getD _)
  rw [hr]
  unfold iif
  unfold iifOf at hr
  by_cases hodd : vs.length % 2 = 0
  · rw [if_pos hodd] at hr ⊢
    cases hr
    rfl
  · rw [if_neg hodd] at hr ⊢
    rw [less_eq (by omega), pure_bind, pick_eq]
    cases hplace : pickedPlace (vs.length - 1) 0 vs with
    | error e =>
      rw [hplace] at hr
      cases hr
      rfl
    | ok place =>
      rw [hplace, takeOut?_ok] at hr
      obtain ⟨v, hv, rfl⟩ := Option.map_eq_some_iff.1 hr
      rw [ofResult_ok, pure_bind, item_eq hv]
      rfl

/-- The best value so far is replaced at its place. -/
theorem extremePlace_eq {wanted : Ordering} (before : List Value) {after : List Value}
    {best : Value} {kind : ValueKind} {place : Nat} (hbest : (before ++ after)[place]? = some best)
    (hkind : best.kind = kind) :
    (extremePlace wanted (before ++ after) kind place before.length after
        >>= item (before ++ after)) = ofResult (extremeFrom wanted best after) := by
  induction after generalizing before best place with
  | nil =>
    rw [extremePlace, pure_bind, item_eq hbest]
    rfl
  | cons v rest ih =>
    rw [extremePlace, extremeFrom, hkind]
    by_cases hv : v.kind = kind
    · have hlength : before.length + 1 = (before ++ [v]).length := by
        rw [List.length_append, List.length_singleton]
      rw [if_neg (not_not_intro hv), if_neg (not_not_intro hv), item_eq hbest, pure_bind]
      dsimp only
      rw [List.append_cons] at hbest ⊢
      rw [hlength]
      split
      · exact ih _ (by simp) hv
      · exact ih _ hbest hkind
    · rw [if_pos hv, if_pos hv]
      rfl

theorem extreme_eq (wanted : Ordering) (v : Value) (vs : List Value) :
    extreme wanted (v :: vs) = ofResult (extremeFrom wanted v vs) :=
  extremePlace_eq [v] rfl rfl

/-! ## The shift from universal time -/

theorem find?_minsFromUTC : SystemVariable.find? "MinsFromUTC"
    = some (.setting "MinsFromUTC" 0 (some (-780)) (some 780)) := by
  decide +kernel

/-- A shift that a script assigns is within its bounds. -/
theorem shift_of_set {env env' : Environment} {name : String} {value : Value}
    (hname : Name.equalIgnoreCase name "MinsFromUTC" = true)
    (h : env.setSystemVariable name value = .ok env') :
    ∃ minutes, value = .int minutes ∧ -780 ≤ minutes ∧ minutes ≤ 780 := by
  obtain ⟨_, hset, -⟩ := bind_eq_ok_iff.1 h
  obtain ⟨entry, hfound, hrefusal, -⟩ := SystemVariables.of_set hset
  have hentry : SystemVariable.find? name = SystemVariable.find? "MinsFromUTC" :=
    NameTable.find?_congr SystemVariable.isSorted_table hname
  rw [hentry, find?_minsFromUTC] at hfound
  cases hfound
  obtain ⟨hkind, -, hbounds⟩ := SystemVariable.of_refusal? hrefusal
  cases value with
  | int minutes =>
    simp only [SystemVariable.inBounds, SystemVariable.setting, Option.all_some, Bool.and_eq_true,
      decide_eq_true_eq] at hbounds
    exact ⟨minutes, rfl, hbounds⟩
  | _ => cases hkind

/-- What a script assigns leaves the shift within its bounds. -/
theorem ShiftWithin.set {env' : Environment} {name : String} {value : Value}
    (henv : ShiftWithin env) (h : env.setSystemVariable name value = .ok env') :
    ShiftWithin env' := by
  unfold ShiftWithin
  rw [env.systemVariable_of_set h]
  split
  · rename_i hname
    obtain ⟨minutes, rfl, hbounds⟩ := shift_of_set hname h
    exact ⟨minutes, rfl, hbounds⟩
  · exact henv

/-! ## All functions -/

def abs (n : Int) : Checked Value :=
  if fits64 n.natAbs then pure (.int n.natAbs) else throw (.integerOverflow .abs)

/-- A word in the singular, and the word or its ending in the plural. -/
def plural (vs : List Value) : Checked Value := do
  let n ← intAt vs 0
  match vs.length with
  | 1 => pure (.str (if n = 1 then "" else "s"))
  | 2 => do
      let word ← stringAt vs 1
      pure (.str (if n = 1 then word else word ++ "s"))
  | _ => do
      let _ ← stringAt vs 1
      let _ ← stringAt vs 2
      item vs (if n = 1 then 1 else 2)

def substr (vs : List Value) : Checked Value := do
  let s ← stringAt vs 0
  let start ← intAt vs 1
  if vs.length = 3 then do
    let stop ← intAt vs 2
    pure (.str (String.ofList (← partBetween start stop s.toList)))
  else do pure (.str (String.ofList (← partFrom start s.toList)))

def index (vs : List Value) : Checked Value := do
  let haystack ← stringAt vs 0
  let needle ← stringAt vs 1
  let start ← if vs.length = 3 then do pure (offsetOf (← intAt vs 2) haystack.toList) else pure 0
  pure (.int (← indexFrom haystack.toList needle.toList start))

/-- A built-in function, computed with machine words. -/
def onWords (env : Environment) (functions : UserFunctions) (vs : List Value) :
    Builtin → Checked Value
  -- Numbers
  | .abs => do abs (← intAt vs 0)
  | .sgn => do pure (.int (← intAt vs 0).sign)
  -- Choices
  | .choose => choose vs
  | .iif => iif vs
  | .max => extreme .gt vs
  | .min => extreme .lt vs
  -- Kinds
  | .coerce => do
      match ValueKind.ofName? (← stringAt vs 0) with
      | none => throw .cantCoerce
      | some kind => coerce env.host.separators kind (← item vs 1)
  | .typeof => do pure (.str (← item vs 0).kind.name)
  -- Strings
  | .asc => do
      match (← stringAt vs 0).toList with
      | [] => pure (.int 0)
      | c :: _ => pure (.int c.toNat)
  | .char => do pure (.str (← ofResult (stringOfCodes vs)))
  | .strlen => do pure (.int (← stringAt vs 0).length)
  | .lower => do pure (.str (Text.lower (← stringAt vs 0)))
  | .upper => do pure (.str (Text.upper (← stringAt vs 0)))
  | .substr => substr vs
  | .index => index vs
  | .ord => do pure (.str (← ordinal (← intAt vs 0)))
  | .plural => plural vs
  -- Dates and times
  | .baseyr => pure (.int baseYear)
  | .date => do pure (.date (← dayOfParts (← intAt vs 0) vs))
  | .time => do
      let hour ← intAt vs 0
      pure (.time (← minutesOfParts hour (← intAt vs 1)))
  | .datetime => moment vs
  | .day => do pure (.int (← civilOf (← item vs 0)).day)
  | .monnum => do pure (.int (← civilOf (← item vs 0)).month)
  | .year => do pure (.int (← civilOf (← item vs 0)).year)
  | .wkdaynum => do
      let day ← ofResult (dayOf (← item vs 0))
      pure (.int (← weekdayFromSunday day))
  | .wkday => do pure (.str (← weekdayNameOf (← item vs 0)))
  | .mon => do pure (.str (← monthName (← monthOf (← item vs 0))))
  | .hour => do pure (.int ((← ofResult (minuteOf (← item vs 0))).tdiv 60))
  | .minute => do pure (.int ((← ofResult (minuteOf (← item vs 0))).tmod 60))
  | .daysinmon => do
      let month ← intAt vs 0
      pure (.int (← monthLength month (← intAt vs 1)))
  | .isleap => do pure (.ofBool (← leapYearOf (← item vs 0)))
  | .easterdate => do pure (.date (← easterOf (← item vs 0)))
  -- The program
  | .version => pure (.str Builtin.versionText)
  | .ostype => pure (.str "UNIX")
  | .language => pure (.str "English")
  -- The host
  | .today => pure (.date env.host.today)
  | .realtoday => pure (.date env.host.realToday)
  | .now => pure (.time env.host.now)
  | .realnow => pure (.time env.host.realNow)
  | .trigdate => pure (.date env.host.trigger.day)
  | .trigtime => pure (.time env.host.trigger.time)
  | .trigvalid => pure (.ofBool env.host.trigger.valid)
  | .filename => pure (.str env.host.fileName)
  | .filedir => do pure (.str (← directoryOf env.host.fileName))
  | .getenv => do pure (.str (Builtin.processVariable env.host (← stringAt vs 0)))
  | .trigger => trigger env vs
  -- The script
  | .defined => do pure (.ofBool (env.globals.contains (← stringAt vs 0)))
  | .value => do
      let name ← stringAt vs 0
      match env.globals.get? name with
      | some v => pure v
      | none => if vs.length = 2 then item vs 1 else throw (.noSuchVariable name)
  | .args => do
      match functions.arity? (← stringAt vs 0) with
      | some n => pure (.int n)
      | none => pure (.int (-1))

theorem abs_eq (v : Value) :
    onWords env functions [v] .abs = ofResult (Builtin.apply env functions .abs [v]) := by
  refine ofResult_bind fun n _ => ?_
  rw [abs]
  split <;> rfl

theorem coerce_call_eq (kind : Value) (h : v.InRange) :
    onWords env functions [kind, v] .coerce
      = ofResult (Builtin.apply env functions .coerce [kind, v]) := by
  refine ofResult_bind fun name _ => ?_
  cases ValueKind.ofName? name with
  | none => rfl
  | some kind => exact coerce_eq h _ kind

theorem asc_eq (v : Value) :
    onWords env functions [v] .asc = ofResult (Builtin.apply env functions .asc [v]) := by
  refine ofResult_bind fun s _ => ?_
  cases s.toList <;> rfl

theorem substr_eq (hlength : 2 ≤ vs.length ∧ vs.length ≤ 3) :
    onWords env functions vs .substr = ofResult (Builtin.apply env functions .substr vs) := by
  rcases vs with _ | ⟨v, _ | ⟨start, _ | ⟨stop, _ | ⟨w, vs⟩⟩⟩⟩
  · cases hlength.1
  · cases Nat.le_of_succ_le_succ hlength.1
  · refine ofResult_bind fun s _ => ofResult_bind fun start _ => ?_
    show (partFrom start s.toList >>= _) = _
    rw [partFrom_eq]
    rfl
  · refine ofResult_bind fun s _ => ofResult_bind fun start _ => ofResult_bind fun stop _ => ?_
    rw [partBetween_eq]
    rfl
  · simp only [List.length_cons] at hlength
    omega

theorem index_eq (hlength : 2 ≤ vs.length ∧ vs.length ≤ 3) :
    onWords env functions vs .index = ofResult (Builtin.apply env functions .index vs) := by
  rcases vs with _ | ⟨haystack, _ | ⟨needle, _ | ⟨start, _ | ⟨w, vs⟩⟩⟩⟩
  · cases hlength.1
  · cases Nat.le_of_succ_le_succ hlength.1
  · refine ofResult_bind fun haystack _ => ofResult_bind fun needle _ => ?_
    have hfirst : offsetOf 1 haystack.toList = 0 := by
      rw [offsetOf_eq]
      rfl
    show (indexFrom haystack.toList needle.toList 0 >>= fun n => pure (Value.int n)) = _
    rw [← hfirst, indexFrom_eq]
    rfl
  · refine ofResult_bind fun haystack _ => ofResult_bind fun needle _ => ?_
    cases start with
    | int start =>
      show (indexFrom haystack.toList needle.toList (offsetOf start haystack.toList)
        >>= fun n => pure (Value.int n)) = _
      rw [indexFrom_eq]
      rfl
    | _ => rfl
  · simp only [List.length_cons] at hlength
    omega

theorem plural_eq (hlength : 1 ≤ vs.length ∧ vs.length ≤ 3) :
    onWords env functions vs .plural = ofResult (Builtin.apply env functions .plural vs) := by
  rcases vs with _ | ⟨v, _ | ⟨one, _ | ⟨many, _ | ⟨w, vs⟩⟩⟩⟩
  · cases hlength.1
  · exact ofResult_bind fun _ _ => rfl
  · exact ofResult_bind fun _ _ => ofResult_bind fun _ _ => rfl
  · refine ofResult_bind fun n _ => ?_
    cases one with
    | str one =>
      cases many with
      | str many =>
        show item [v, .str one, .str many] (if n = 1 then 1 else 2)
          = pure (Value.str (if n = 1 then one else many))
        split <;> rfl
      | _ => rfl
    | _ => rfl
  · simp only [List.length_cons] at hlength
    omega

theorem value_eq (hlength : 1 ≤ vs.length ∧ vs.length ≤ 2) :
    onWords env functions vs .value = ofResult (Builtin.apply env functions .value vs) := by
  rcases vs with _ | ⟨v, _ | ⟨otherwise, _ | ⟨w, vs⟩⟩⟩
  · cases hlength.1
  · refine ofResult_bind fun name _ => ?_
    unfold Builtin.variableOr
    cases env.globals.get? name <;> rfl
  · refine ofResult_bind fun name _ => ?_
    unfold Builtin.variableOr
    cases env.globals.get? name <;> rfl
  · simp only [List.length_cons] at hlength
    omega

theorem mon_eq (h : v.InRange) :
    onWords env functions [v] .mon = ofResult (Builtin.apply env functions .mon [v]) := by
  show (monthOf v >>= fun month => monthName month >>= fun s => pure (Value.str s)) = _
  rw [monthOf_eq h]
  unfold Builtin.apply Builtin.call?
  dsimp only
  cases hmonth : Dates.monthOf v with
  | error e => rfl
  | ok month =>
    obtain ⟨name, hname⟩ := Option.isSome_iff_exists.1 (isSome_monthName (monthOf_bounds hmonth))
    dsimp only
    rw [hname, ofResult_ok, pure_bind, monthName_eq hname]
    rfl

/-- A function of one argument, whatever it is. -/
theorem onWords_single (hv : v.InRange) {b : Builtin} (hmax : b.signature.maxArgs = some 1) :
    onWords env functions [v] b = ofResult (b.apply env functions [v]) := by
  cases b with
  | abs => exact abs_eq v
  | asc => exact asc_eq v
  | mon => exact mon_eq hv
  | typeof => rfl
  | sgn | strlen | lower | upper | hour | minute | getenv | defined =>
    exact ofResult_bind fun _ _ => rfl
  | args =>
    refine ofResult_bind fun name _ => ?_
    cases functions.arity? name <;> rfl
  | ord => exact ofResult_bind fun n _ => ofResult_map (r := .ok _) (ordinal_eq n)
  | day | monnum | year => exact ofResult_map (civilOf_eq hv)
  | wkdaynum =>
    refine ofResult_bind (r := dayOf v) fun day hday => ?_
    exact ofResult_map (r := .ok _) (weekdayFromSunday_eq (fits32_of_dayOf hv hday))
  | wkday => exact ofResult_map (weekdayNameOf_eq v)
  | isleap => exact ofResult_map (leapYearOf_eq hv)
  | easterdate => exact ofResult_map (easterOf_eq hv)
  | _ => cases hmax

/-- On words, a function comes to the same, wherever it accepts as many arguments. -/
theorem onWords_eq (henv : ShiftWithin env) {b : Builtin}
    (harity : b.signature.checkArity vs.length = .ok ()) (h : ∀ v ∈ vs, v.InRange) :
    onWords env functions vs b = ofResult (b.apply env functions vs) := by
  obtain ⟨hmin, hmax⟩ := (Signature.checkArity_eq_ok_iff _ _).1 harity
  cases b with
  | choose =>
    rcases vs with _ | ⟨v, _ | ⟨w, vs⟩⟩
    · cases hmin
    · cases Nat.le_of_succ_le_succ hmin
    · exact choose_eq v w vs
  | iif => exact iif_eq vs
  | max | min =>
    obtain ⟨v, vs, rfl⟩ := List.exists_cons_of_length_pos hmin
    exact extreme_eq _ v vs
  | coerce =>
    obtain ⟨kind, v, rfl⟩ := List.length_eq_two.1 (Nat.le_antisymm (hmax 2 rfl) hmin)
    exact coerce_call_eq kind (h v (by simp))
  | char => exact ofResult_bind fun _ _ => rfl
  | substr => exact substr_eq ⟨hmin, hmax 3 rfl⟩
  | index => exact index_eq ⟨hmin, hmax 3 rfl⟩
  | plural => exact plural_eq ⟨hmin, hmax 3 rfl⟩
  | date =>
    obtain ⟨year, month, day, rfl⟩ := List.length_eq_three.1 (Nat.le_antisymm (hmax 3 rfl) hmin)
    cases year with
    | int year => exact ofResult_map (dayOfParts_eq year month day [])
    | _ => rfl
  | time =>
    obtain ⟨hour, minute, rfl⟩ := List.length_eq_two.1 (Nat.le_antisymm (hmax 2 rfl) hmin)
    exact ofResult_bind fun hour _ => ofResult_bind fun minute _ =>
      ofResult_map (minutesOfParts_eq hour minute)
  | datetime => exact moment_eq h (List.ne_nil_of_length_pos (Nat.lt_of_succ_lt hmin))
  | daysinmon =>
    obtain ⟨month, year, rfl⟩ := List.length_eq_two.1 (Nat.le_antisymm (hmax 2 rfl) hmin)
    exact ofResult_bind fun month _ => ofResult_bind fun year _ =>
      ofResult_map (monthLength_eq month year)
  | trigger => exact trigger_eq henv h ⟨hmin, hmax 3 rfl⟩
  | value => exact value_eq ⟨hmin, hmax 2 rfl⟩
  | filedir =>
    obtain rfl := List.eq_nil_of_length_eq_zero (Nat.le_zero.1 (hmax 0 rfl))
    exact ofResult_map (r := .ok _) (directoryOf_eq _)
  | baseyr | version | ostype | language | today | realtoday | now | realnow | trigdate | trigtime
  | trigvalid | filename =>
    obtain rfl := List.eq_nil_of_length_eq_zero (Nat.le_zero.1 (hmax 0 rfl))
    rfl
  | _ =>
    obtain ⟨v, rfl⟩ := List.length_eq_one_iff.1 (Nat.le_antisymm (hmax 1 rfl) hmin)
    exact onWords_single (h v List.mem_cons_self) rfl

/-- While the shift from universal time is within its bounds, every call of a
function with a number of arguments that it accepts, whatever values they are, is
possible on words: it takes no argument, name or entry of a table that is not
there, cuts no text inside a character or with its ends crossed, narrows down to
no crossed bounds, leaves no word and needs no substitute for a number, and it ends
with the value or the failure of the function. And what a script assigns to any
system variable leaves the shift within its bounds. -/
theorem calls_are_possible (henv : ShiftWithin env) :
    (∀ (functions : UserFunctions) (b : Builtin) (vs : List Value),
        b.signature.checkArity vs.length = .ok () → (∀ v ∈ vs, v.InRange) →
          (onWords env functions vs b).run = some (b.apply env functions vs))
      ∧ ∀ (name : String) (value : Value) (env' : Environment),
          env.setSystemVariable name value = .ok env' → ShiftWithin env' := by
  refine ⟨fun functions b vs harity h => ?_, fun name value env' hset => henv.set hset⟩
  rw [onWords_eq henv harity h]
  rfl

/-- From the first day of 32 bits, the westernmost shift leads to none; and the
shift can be made the easternmost. -/
theorem shift_beyond_the_first_day :
    let env : Environment :=
      { systemVariables := { assigned := [("MinsFromUTC", .int (-780))] } }
    (onWords env {} [.date (-0x80000000), .time 0, .int (-0x8000000000000000)] .trigger).run
        = some (.error .dateOverflow)
      ∧ ∃ env', env.setSystemVariable "minsfromutc" (.int 780) = .ok env' ∧ ShiftWithin env' := by
  intro env
  have hshift : ShiftWithin env := ⟨-780, by decide +kernel, by decide, by decide⟩
  obtain ⟨hcalls, hset⟩ := calls_are_possible hshift
  have hrange : ∀ v ∈ [Value.date (-0x80000000), .time 0, .int (-0x8000000000000000)],
      v.InRange := by
    simp [Value.InRange, fits32, fits64]
  refine ⟨?_, ?_⟩
  · rw [hcalls {} .trigger _ rfl hrange]
    have hoverflow : Builtin.apply env {} .trigger
        [.date (-0x80000000), .time 0, .int (-0x8000000000000000)] = .error .dateOverflow := by
      decide +kernel
    rw [hoverflow]
  · have hresult : env.setSystemVariable "minsfromutc" (.int 780)
        = .ok { systemVariables := { assigned := [("MinsFromUTC", .int 780)] } } := by
      decide +kernel
    exact ⟨_, hresult, hset _ _ _ hresult⟩

end ReminderExpr.Words
