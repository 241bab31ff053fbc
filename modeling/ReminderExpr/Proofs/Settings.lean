/-
ReminderExpr.Proofs.Settings — what assignments make of the system variables.

A system variable lives in one of two places, a list of stored values or a
field of the host, and the table says which. An assignment is laid down in the
place of its entry and in no other: entries have names of their own, and no two
show the same view of the host. So it is read back under every spelling of the
name, and nothing else reads differently.

* `Special.read_write` — writing a view, and reading any of them;
* `Settings` — the stored values and the host, and assignments to them;
* `Settings.Written`, `written_of_assign` — what an assignment does to the
  entries;
* `Settings.Kept` — what assignments of a script keep;
* `Settings.settings_hold` — all of this after any sequence of assignments.
-/
import ReminderExpr.Environment
import ReminderExpr.Proofs.TableLookup

namespace ReminderExpr

/-! ## Views of the host -/

/-- The kind of what a view shows. -/
def Special.kind : Special → ValueKind
  | .dateSep | .timeSep => .str
  | .trigDate | .today => .date
  | _ => .int

/-- The kind of the values of an entry. -/
def Access.kind : Access → ValueKind
  | .int _ => .int
  | .str _ => .str
  | .special view => view.kind

/-- The values that a view of a separator accepts. -/
def Special.accepts : Special → Value → Bool
  | .dateSep, value => value = .str "/" || value = .str "-"
  | .timeSep, value => value = .str ":" || value = .str "."
  | _, _ => true

namespace Special

theorem kind_read (host : HostState) (view : Special) : (view.read host).kind = view.kind := by
  cases view <;> rfl

/-- A separator is written as the string of its character. -/
theorem of_separator {allowed : List Char} {value : Value} {c : Char}
    (h : separator allowed value = .ok c) : c ∈ allowed ∧ value = .str c.toString := by
  unfold separator at h
  split at h
  · rename_i s
    split at h
    · rename_i d hs
      split at h
      · rename_i hd
        cases h
        refine ⟨by simpa using hd, ?_⟩
        rw [← String.ofList_toList (s := s), hs]
        rfl
      · cases h
    · cases h
  · cases h

/-- What writing a separator has come to. -/
theorem of_write_separator {allowed : List Char} {value : Value} {update : Char → HostState}
    {host' : HostState}
    (h : (do let c ← separator allowed value; .ok (update c)) = Except.ok host') :
    ∃ c ∈ allowed, value = .str c.toString ∧ host' = update c := by
  cases hc : separator allowed value with
  | error e =>
    rw [hc] at h
    cases h
  | ok c =>
    rw [hc] at h
    cases h
    obtain ⟨hmem, hvalue⟩ := of_separator hc
    exact ⟨c, hmem, hvalue, rfl⟩

/-- A view that is written shows what has been written, and all others show
what they did. -/
theorem read_write {host host' : HostState} {value : Value} {view : Special}
    (h : view.write host value = .ok host') :
    view.read host' = value ∧ view.accepts value = true
      ∧ ∀ other, other ≠ view → other.read host' = other.read host := by
  cases view with
  | dateSep =>
    obtain ⟨c, hmem, rfl, rfl⟩ := of_write_separator h
    refine ⟨rfl, ?_, fun other hother => ?_⟩
    · simp only [List.mem_cons, List.not_mem_nil, or_false] at hmem
      rcases hmem with rfl | rfl <;> rfl
    · cases other <;> first | rfl | exact absurd rfl hother
  | timeSep =>
    obtain ⟨c, hmem, rfl, rfl⟩ := of_write_separator h
    refine ⟨rfl, ?_, fun other hother => ?_⟩
    · simp only [List.mem_cons, List.not_mem_nil, or_false] at hmem
      rcases hmem with rfl | rfl <;> rfl
    · cases other <;> first | rfl | exact absurd rfl hother
  | maxStringLen =>
    simp only [write] at h
    cases value with
    | int n =>
      cases h
      refine ⟨rfl, rfl, fun other hother => ?_⟩
      cases other <;> first | rfl | exact absurd rfl hother
    | _ => cases h
  | _ => cases h

end Special

/-! ## The table -/

namespace SystemVariable

/-- Whether an entry is a view of the host. -/
def isView (v : SystemVariable) : Bool :=
  match v.access with
  | .special _ => true
  | _ => false

/-- Whether a value, if it is an integer, is within the bounds of an entry. -/
def inBounds (v : SystemVariable) : Value → Bool
  | .int n => v.min.all (· ≤ n) && v.max.all (n ≤ ·)
  | _ => true

/-- Whether a value of an entry is one that scripts may leave there. -/
def permits (v : SystemVariable) (value : Value) : Bool :=
  v.inBounds value && match v.access with
    | .special view => view.accepts value
    | _ => true

theorem isView_eq_false {v : SystemVariable} (h : ∀ view, v.access ≠ .special view) :
    v.isView = false := by
  unfold isView
  split
  · rename_i view haccess
    exact absurd haccess (h view)
  · rfl

/-- An entry is found under all spellings of its name, and under no others. -/
theorem find?_eq_some_iff {name : String} {v : SystemVariable} :
    find? name = some v ↔ v ∈ table.toList ∧ Name.equalIgnoreCase v.name name = true :=
  NameTable.find?_eq_some_iff isSorted_table

theorem find?_name {v : SystemVariable} (h : v ∈ table.toList) : find? v.name = some v :=
  find?_eq_some_iff.2 ⟨h, Name.equalIgnoreCase_iff.2 rfl⟩

theorem eq_of_name {v w : SystemVariable} (hv : v ∈ table.toList) (hw : w ∈ table.toList)
    (h : v.name = w.name) : v = w := by
  have hfound := find?_name hv
  rw [h, find?_name hw] at hfound
  exact (Option.some.inj hfound).symm

/-- The values of an entry are of its kind. -/
theorem kind_access : ∀ v ∈ table.toList, v.access.kind = v.kind := by
  decide +kernel

/-- No two entries are the same view. -/
theorem eq_of_view : ∀ v ∈ table.toList, ∀ w ∈ table.toList,
    v.isView = true → v.access = w.access → v = w := by
  decide +kernel

theorem find?_dateSep :
    find? "DateSep" = some { view "DateSep" .str .dateSep with modifiable := true } := by
  decide +kernel

theorem find?_timeSep :
    find? "TimeSep" = some { view "TimeSep" .str .timeSep with modifiable := true } := by
  decide +kernel

theorem find?_maxStringLen :
    find? "MaxStringLen" = some { view "MaxStringLen" .int .maxStringLen with
      modifiable := true, min := some (-1) } := by
  decide +kernel

/-- What scripts may assign starts as they may leave it. -/
theorem permits_initial : ∀ v ∈ table.toList, v.modifiable = true →
    v.permits (SystemVariables.valueOf {} {} v) = true := by
  decide +kernel

/-- A value that is not refused is of the kind of an entry that scripts may
assign, and within its bounds. -/
theorem of_refusal? {v : SystemVariable} {name : String} {value : Value}
    (h : v.refusal? name value = none) :
    value.kind = v.kind ∧ v.modifiable = true ∧ v.inBounds value = true := by
  unfold refusal? at h
  split at h
  · cases h
  · rename_i hkind
    split at h
    · cases h
    · rename_i hmodifiable
      refine ⟨by simpa using hkind, by simpa using hmodifiable, ?_⟩
      cases value with
      | int n =>
        dsimp only at h
        split at h
        · cases h
        · rename_i hmax
          split at h
          · cases h
          · rename_i hmin
            simp only [inBounds, Bool.and_eq_true]
            constructor
            · cases hlow : v.min <;> simp_all
            · cases hhigh : v.max <;> simp_all
      | _ => rfl

end SystemVariable

/-! ## Stored values -/

namespace SystemVariables

variable {vars : SystemVariables} {host : HostState} {v w : SystemVariable} {value : Value}

theorem lookup_filter_of_ne {key key' : String} (h : key ≠ key') (l : List (String × Value)) :
    (l.filter fun (name, _) => name != key').lookup key = l.lookup key := by
  induction l with
  | nil => rfl
  | cons entry rest ih =>
    obtain ⟨name, u⟩ := entry
    by_cases hname : name = key'
    · subst hname
      have hne : (key == name) = false := by simpa using h
      rw [List.filter_cons_of_neg (by simp), ih, List.lookup_cons, hne]
    · rw [List.filter_cons_of_pos (by simpa using hname), List.lookup_cons, List.lookup_cons, ih]

/-- A stored entry reads as what is stored. -/
theorem valueOf_store (h : v.isView = false) : (vars.store v value).valueOf host v = value := by
  unfold SystemVariable.isView at h
  unfold valueOf
  split
  · rename_i haccess
    rw [haccess] at h
    cases h
  · simp [store]
  · simp [store]

/-- No other entry reads differently. -/
theorem valueOf_store_of_ne (h : w.name ≠ v.name) :
    (vars.store v value).valueOf host w = vars.valueOf host w := by
  have hlookup : (vars.store v value).assigned.lookup w.name = vars.assigned.lookup w.name := by
    have hne : (w.name == v.name) = false := by simpa using h
    rw [store, List.lookup_cons, hne]
    exact lookup_filter_of_ne h vars.assigned
  unfold valueOf
  rw [hlookup]

/-- What an assignment by a script that succeeds has come to. -/
theorem of_set {name : String} {vars' : SystemVariables} {host' : HostState}
    (h : vars.set host name value = .ok (vars', host')) :
    ∃ v, SystemVariable.find? name = some v ∧ v.refusal? name value = none
      ∧ ((v.isView = false ∧ vars' = vars.store v value ∧ host' = host)
        ∨ ∃ view, v.access = .special view ∧ vars' = vars
            ∧ view.write host value = .ok host') := by
  unfold set at h
  split at h
  · cases h
  · rename_i v hfound
    split at h
    · cases h
    · rename_i hrefusal
      refine ⟨v, hfound, hrefusal, ?_⟩
      split at h
      · rename_i view haccess
        cases hwrite : view.write host value with
        | error e =>
          rw [hwrite] at h
          cases h
        | ok written =>
          rw [hwrite] at h
          cases h
          exact .inr ⟨view, haccess, rfl, hwrite⟩
      · rename_i hstored
        cases h
        exact .inl ⟨SystemVariable.isView_eq_false hstored, rfl, rfl⟩

/-- What an assignment by the host that succeeds has come to. -/
theorem of_hostSet {name : String} {vars' : SystemVariables}
    (h : vars.hostSet name value = .ok vars') :
    ∃ v, SystemVariable.find? name = some v ∧ value.kind = v.kind ∧ v.isView = false
      ∧ vars' = vars.store v value := by
  unfold hostSet at h
  split at h
  · cases h
  · rename_i v hfound
    split at h
    · cases h
    · rename_i hkind
      split at h
      · cases h
      · rename_i hstored
        cases h
        exact ⟨v, hfound, by simpa using hkind, SystemVariable.isView_eq_false hstored, rfl⟩

end SystemVariables

/-! ## Assignments -/

/-- The system variables: what has been stored in them, and the host that the
others show. -/
structure Settings where
  vars : SystemVariables := {}
  host : HostState := {}
  deriving DecidableEq, Repr

/-- An assignment to a system variable, named without its `$`. -/
inductive Assignment
  /-- By a script. -/
  | script (name : String) (value : Value)
  /-- By the host. -/
  | host (name : String) (value : Value)
  deriving DecidableEq, Repr

namespace Assignment

def name : Assignment → String
  | .script name _ | .host name _ => name

def value : Assignment → Value
  | .script _ value | .host _ value => value

def byScript : Assignment → Bool
  | .script .. => true
  | .host .. => false

end Assignment

namespace Settings

/-- The value of a name. -/
def read (s : Settings) (name : String) : Result Value := s.vars.get s.host name

/-- The value of an entry. -/
def valueOf (s : Settings) (v : SystemVariable) : Value := s.vars.valueOf s.host v

/-- The settings after an assignment that succeeds. -/
def assign (s : Settings) : Assignment → Result Settings
  | .script name value => do
      let (vars, host) ← s.vars.set s.host name value
      .ok { vars, host }
  | .host name value => do
      let vars ← s.vars.hostSet name value
      .ok { s with vars }

/-- The settings after an assignment; one that fails leaves them. -/
def after (s : Settings) (a : Assignment) : Settings :=
  match s.assign a with
  | .ok s' => s'
  | .error _ => s

/-- The settings after assignments in order. -/
def run (s : Settings) (assignments : List Assignment) : Settings := assignments.foldl after s

variable {s s' : Settings} {a : Assignment}

theorem read_of_find? {name : String} {v : SystemVariable}
    (h : SystemVariable.find? name = some v) : s.read name = .ok (s.valueOf v) := by
  rw [read, SystemVariables.get, h]
  rfl

theorem read_of_unknown {name : String} (h : SystemVariable.find? name = none) :
    s.read name = .error (.noSuchVariable name) := by
  rw [read, SystemVariables.get, h]

theorem read_name {v : SystemVariable} (h : v ∈ SystemVariable.table.toList) :
    s.read v.name = .ok (s.valueOf v) :=
  read_of_find? (SystemVariable.find?_name h)

/-- What an assignment does to the entries: its own reads as what has been
assigned, which is of its kind, and no other reads differently. A script
assigns what it may. -/
structure Written (a : Assignment) (s s' : Settings) (v : SystemVariable) : Prop where
  found : SystemVariable.find? a.name = some v
  kind : a.value.kind = v.kind
  same : s'.valueOf v = a.value
  other : ∀ w ∈ SystemVariable.table.toList, w ≠ v → s'.valueOf w = s.valueOf w
  permitted : a.byScript = true → v.modifiable = true ∧ v.permits a.value = true

theorem written_store {name : String} {value : Value} {v : SystemVariable}
    (hfound : SystemVariable.find? name = some v) (hview : v.isView = false) :
    (s.vars.store v value).valueOf s.host v = value
      ∧ ∀ w ∈ SystemVariable.table.toList, w ≠ v →
          (s.vars.store v value).valueOf s.host w = s.valueOf w := by
  have hv := (SystemVariable.find?_eq_some_iff.1 hfound).1
  refine ⟨SystemVariables.valueOf_store hview, fun w hw hne => ?_⟩
  exact SystemVariables.valueOf_store_of_ne fun hname =>
    hne (SystemVariable.eq_of_name hw hv hname)

/-- A view that is written is the only entry that reads differently. -/
theorem written_view {name : String} {value : Value} {v : SystemVariable} {view : Special}
    {host : HostState} (hfound : SystemVariable.find? name = some v)
    (haccess : v.access = .special view) (h : view.write s.host value = .ok host) :
    s.vars.valueOf host v = value
      ∧ ∀ w ∈ SystemVariable.table.toList, w ≠ v → s.vars.valueOf host w = s.valueOf w := by
  obtain ⟨hsame, -, hother⟩ := Special.read_write h
  have hv := (SystemVariable.find?_eq_some_iff.1 hfound).1
  have hview : v.isView = true := by simp [SystemVariable.isView, haccess]
  refine ⟨by simp only [SystemVariables.valueOf, haccess, hsame], fun w hw hne => ?_⟩
  unfold valueOf SystemVariables.valueOf
  split
  · rename_i view' haccess'
    refine hother view' fun heq => hne ?_
    exact (SystemVariable.eq_of_view v hv w hw hview (by rw [haccess, haccess', heq])).symm
  · rfl
  · rfl

theorem written_of_assign (h : s.assign a = .ok s') : ∃ v, Written a s s' v := by
  cases a with
  | script name value =>
    simp only [assign] at h
    cases hset : s.vars.set s.host name value with
    | error e =>
      rw [hset] at h
      cases h
    | ok after =>
      obtain ⟨vars, host⟩ := after
      rw [hset] at h
      cases h
      obtain ⟨v, hfound, hrefusal, hplace⟩ := SystemVariables.of_set hset
      obtain ⟨hkind, hmodifiable, hbounds⟩ := SystemVariable.of_refusal? hrefusal
      rcases hplace with ⟨hview, rfl, rfl⟩ | ⟨view, haccess, rfl, hwrite⟩
      · obtain ⟨hsame, hother⟩ := written_store hfound hview
        refine ⟨v, hfound, hkind, hsame, hother, fun _ => ⟨hmodifiable, ?_⟩⟩
        unfold SystemVariable.isView at hview
        unfold SystemVariable.permits
        split at hview
        · cases hview
        · simp [hbounds, Assignment.value]
      · obtain ⟨hsame, hother⟩ := written_view hfound haccess hwrite
        refine ⟨v, hfound, hkind, hsame, hother, fun _ => ⟨hmodifiable, ?_⟩⟩
        simp only [SystemVariable.permits, haccess, Assignment.value, hbounds, Bool.true_and]
        exact (Special.read_write hwrite).2.1
  | host name value =>
    simp only [assign] at h
    cases hset : s.vars.hostSet name value with
    | error e =>
      rw [hset] at h
      cases h
    | ok vars =>
      rw [hset] at h
      cases h
      obtain ⟨v, hfound, hkind, hview, rfl⟩ := SystemVariables.of_hostSet hset
      obtain ⟨hsame, hother⟩ := written_store hfound hview
      exact ⟨v, hfound, hkind, hsame, hother, nofun⟩

/-! ## Sequences of assignments -/

/-- What every successful assignment keeps holds after all assignments. -/
theorem invariant_run {P : Settings → Prop} {assignments : List Assignment}
    (hstep : ∀ {t t'}, ∀ a ∈ assignments, P t → t.assign a = .ok t' → P t') (hs : P s) :
    P (s.run assignments) := by
  induction assignments generalizing s with
  | nil => exact hs
  | cons a rest ih =>
    refine ih (fun b hb => hstep b (List.mem_cons_of_mem a hb)) ?_
    unfold after
    split
    · rename_i hassign
      exact hstep a List.mem_cons_self hs hassign
    · exact hs

/-- Every entry reads as a value of its kind. -/
def Typed (s : Settings) : Prop :=
  ∀ v ∈ SystemVariable.table.toList, (s.valueOf v).kind = v.kind

theorem typed_start (host : HostState) : Typed { host } := by
  intro v hv
  rw [← SystemVariable.kind_access v hv]
  unfold valueOf SystemVariables.valueOf
  cases v.access with
  | special view => exact Special.kind_read host view
  | int initial => rfl
  | str initial => rfl

theorem typed_of_assign (h : s.assign a = .ok s') (hs : s.Typed) : s'.Typed := by
  obtain ⟨v, hwritten⟩ := written_of_assign h
  intro w hw
  by_cases hwv : w = v
  · rw [hwv, hwritten.same, hwritten.kind]
  · rw [hwritten.other w hw hwv, hs w hw]

/-- What scripts leave: an entry that they may assign reads as they may leave
it, and all others as at the start. -/
def Kept (start s : Settings) : Prop :=
  ∀ v ∈ SystemVariable.table.toList,
    if v.modifiable then v.permits (s.valueOf v) = true else s.valueOf v = start.valueOf v

theorem kept_start : Kept {} {} := by
  intro v hv
  split
  · rename_i hmodifiable
    exact SystemVariable.permits_initial v hv hmodifiable
  · rfl

theorem kept_of_assign {start : Settings} (h : s.assign a = .ok s') (ha : a.byScript = true)
    (hs : start.Kept s) : start.Kept s' := by
  obtain ⟨v, hwritten⟩ := written_of_assign h
  intro w hw
  by_cases hwv : w = v
  · obtain ⟨hmodifiable, hpermits⟩ := hwritten.permitted ha
    rw [hwv, if_pos hmodifiable, hwritten.same]
    exact hpermits
  · rw [hwritten.other w hw hwv]
    exact hs w hw

/-! ## What is read -/

/-- A successful assignment is read under the spellings of its name; all other
names read as before. -/
theorem read_of_assign (h : s.assign a = .ok s') (name : String) :
    s'.read name
      = if Name.equalIgnoreCase a.name name then .ok a.value else s.read name := by
  obtain ⟨v, hwritten⟩ := written_of_assign h
  have hname := (SystemVariable.find?_eq_some_iff.1 hwritten.found).2
  split
  · rename_i hsame
    have hfound : SystemVariable.find? name = some v := by
      rw [← hwritten.found]
      exact (NameTable.find?_congr SystemVariable.isSorted_table hsame).symm
    rw [read_of_find? hfound, hwritten.same]
  · rename_i hother
    cases hfound : SystemVariable.find? name with
    | none => rw [read_of_unknown hfound, read_of_unknown hfound]
    | some w =>
      obtain ⟨hw, hwname⟩ := SystemVariable.find?_eq_some_iff.1 hfound
      have hne : w ≠ v := by
        rintro rfl
        rw [Name.equalIgnoreCase_iff] at hother hname hwname
        exact hother (hname.symm.trans hwname)
      rw [read_of_find? hfound, read_of_find? hfound, hwritten.other w hw hne]

/-- An integer that scripts may assign is within its bounds. -/
theorem Kept.bounds {start : Settings} (hs : start.Kept s) (htyped : s.Typed)
    {v : SystemVariable} (hv : v ∈ SystemVariable.table.toList) (hmodifiable : v.modifiable = true)
    (hkind : v.kind = .int) :
    ∃ n, s.read v.name = .ok (.int n) ∧ (∀ low, v.min = some low → low ≤ n)
      ∧ ∀ high, v.max = some high → n ≤ high := by
  have hpermits := hs v hv
  rw [if_pos hmodifiable] at hpermits
  have hinBounds : v.inBounds (s.valueOf v) = true := (Bool.and_eq_true _ _ ▸ hpermits).1
  have hvalue := htyped v hv
  rw [read_name hv]
  cases hn : s.valueOf v with
  | int n =>
    rw [hn] at hinBounds
    simp only [SystemVariable.inBounds, Bool.and_eq_true] at hinBounds
    refine ⟨n, rfl, fun low hlow => ?_, fun high hhigh => ?_⟩
    · simpa [hlow] using hinBounds.1
    · simpa [hhigh] using hinBounds.2
  | _ =>
    rw [hn, hkind] at hvalue
    cases hvalue

/-- A separator that scripts may assign is one that its view accepts. -/
theorem Kept.accepted {start : Settings} (hs : start.Kept s) {v : SystemVariable} {name : String}
    {view : Special} (hfound : SystemVariable.find? name = some v)
    (hmodifiable : v.modifiable = true) (haccess : v.access = .special view) :
    ∃ value, s.read name = .ok value ∧ view.accepts value = true := by
  have hpermits := hs v (SystemVariable.find?_eq_some_iff.1 hfound).1
  rw [if_pos hmodifiable, SystemVariable.permits, haccess] at hpermits
  exact ⟨_, read_of_find? hfound, (Bool.and_eq_true _ _ ▸ hpermits).2⟩

/-- After any assignments to the settings that a session starts with:

every entry of the table reads, under all spellings of its name, as a value of
its kind;

one more assignment, if it succeeds, makes its name read as the value assigned
under all spellings, and no other name read differently; if it fails, nothing
reads differently;

and if all have come from scripts, every integer that scripts may assign is
within its bounds, every entry that they may not reads as at the start, the
separators are among those of dates and of times, and the longest string is not
less than -1. -/
theorem settings_hold (assignments : List Assignment) :
    let s := run {} assignments
    (∀ v ∈ SystemVariable.table.toList, ∀ name, Name.equalIgnoreCase v.name name = true →
        ∃ value, s.read name = .ok value ∧ value.kind = v.kind)
      ∧ (∀ a s', s.assign a = .ok s' → ∀ name,
          (Name.equalIgnoreCase a.name name = true → s'.read name = .ok a.value)
            ∧ (Name.equalIgnoreCase a.name name = false → s'.read name = s.read name))
      ∧ (∀ a e, s.assign a = .error e → ∀ name, (s.after a).read name = s.read name)
      ∧ ((∀ a ∈ assignments, a.byScript = true) →
          (∀ v ∈ SystemVariable.table.toList, v.modifiable = true → v.kind = .int →
              ∃ n, s.read v.name = .ok (.int n) ∧ (∀ low, v.min = some low → low ≤ n)
                ∧ ∀ high, v.max = some high → n ≤ high)
            ∧ (∀ v ∈ SystemVariable.table.toList, v.modifiable = false →
                s.read v.name = ({} : Settings).read v.name)
            ∧ (s.read "DateSep" = .ok (.str "/") ∨ s.read "DateSep" = .ok (.str "-"))
            ∧ (s.read "TimeSep" = .ok (.str ":") ∨ s.read "TimeSep" = .ok (.str "."))
            ∧ ∃ n, s.read "MaxStringLen" = .ok (.int n) ∧ -1 ≤ n) := by
  intro s
  have htyped : s.Typed :=
    invariant_run (fun a _ ht hassign => typed_of_assign hassign ht) (typed_start {})
  refine ⟨fun v hv name hname => ?_, fun a s' hassign name => ?_, fun a e hfailed name => ?_,
    fun hscripts => ?_⟩
  · exact ⟨_, read_of_find? (SystemVariable.find?_eq_some_iff.2 ⟨hv, hname⟩), htyped v hv⟩
  · have hread := read_of_assign hassign name
    constructor
    · intro hsame
      rw [hread, if_pos hsame]
    · intro hother
      rw [hread, if_neg (by simp [hother])]
  · rw [after, hfailed]
  · have hkept : Kept {} s :=
      invariant_run (fun a ha ht hassign => kept_of_assign hassign (hscripts a ha) ht) kept_start
    refine ⟨fun v hv hmodifiable hkind => hkept.bounds htyped hv hmodifiable hkind,
      fun v hv hfixed => ?_, ?_, ?_, ?_⟩
    · have hsame := hkept v hv
      rw [if_neg (by simp [hfixed])] at hsame
      rw [read_name hv, read_name hv, hsame]
    · obtain ⟨value, hread, haccepts⟩ :=
        hkept.accepted SystemVariable.find?_dateSep rfl rfl
      rw [hread]
      simpa [Special.accepts] using haccepts
    · obtain ⟨value, hread, haccepts⟩ :=
        hkept.accepted SystemVariable.find?_timeSep rfl rfl
      rw [hread]
      simpa [Special.accepts] using haccepts
    · have hentry := (SystemVariable.find?_eq_some_iff.1 SystemVariable.find?_maxStringLen).1
      obtain ⟨n, hread, hlow, -⟩ := hkept.bounds htyped hentry rfl rfl
      exact ⟨n, hread, hlow _ rfl⟩

/-- A script moves the location and changes the separator; it may neither move
the location out of bounds nor change a counter. -/
theorem settings_after_script :
    let assignments : List Assignment :=
      [.script "latdeg" (.int (-33)), .script "DATESEP" (.str "-"), .script "LatDeg" (.int 91),
        .script "NumTrig" (.int 4)]
    let s := run {} assignments
    (∀ a ∈ assignments, a.byScript = true)
      ∧ s.read "LATDEG" = .ok (.int (-33)) ∧ s.read "datesep" = .ok (.str "-")
      ∧ s.read "NumTrig" = ({} : Settings).read "NumTrig" := by
  intro assignments s
  have hscripts : ∀ a ∈ assignments, a.byScript = true := by decide
  have hkept := (settings_hold assignments).2.2.2 hscripts
  refine ⟨hscripts, by decide +kernel, by decide +kernel, ?_⟩
  exact hkept.2.1 (SystemVariable.flag "NumTrig") (by decide +kernel) rfl

end Settings

/-- What a script assigns is read under the spellings of its name; all other
names read as before. -/
theorem Environment.systemVariable_of_set {env env' : Environment} {name : String} {value : Value}
    (h : env.setSystemVariable name value = .ok env') (other : String) :
    env'.systemVariable other
      = if Name.equalIgnoreCase name other then .ok value else env.systemVariable other := by
  unfold setSystemVariable at h
  cases hset : env.systemVariables.set env.host name value with
  | error e =>
    rw [hset] at h
    cases h
  | ok settings =>
    rw [hset] at h
    cases h
    have hassign : ({ vars := env.systemVariables, host := env.host } : Settings).assign
        (.script name value) = .ok { vars := settings.1, host := settings.2 } := by
      rw [Settings.assign, hset]
      rfl
    exact Settings.read_of_assign hassign other

end ReminderExpr
