import Stiles.Types.RuleOptions

/-
  The options of the rules as a configuration writes them (`read_options` in `config.rs`).

  The file nests the names of the options under their rule. `OptionsTable` is that table, as the
  ordered maps it is read into, and `readOptions` flattens it to the list that a pass looks its
  options up in.

  * `names_readOptions`: a pass of the rules `R` finds what the table sets for a rule of `R`, and
    nothing else.
  * `readOptions_routes`: this, and which tables `validate` refuses.
-/

namespace Stiles

/-- `[rules.options]`: the options of each rule, and the values of each option. -/
abbrev OptionsTable := Std.TreeMap String (Std.TreeMap String (List String))

def readOptions (options : OptionsTable) : RuleOptions :=
  ⟨options.toList.flatMap fun (rule, options) =>
    options.toList.map fun (name, values) => { rule, name, values }⟩

namespace OptionsTable

/-- What the table sets the option `name` of `rule` to. -/
def values? (table : OptionsTable) (rule name : String) : Option (List String) :=
  table[rule]?.bind fun options => options[name]?

/-- The table sets some option of `rule`. -/
def Configures (table : OptionsTable) (rule : String) : Prop :=
  ∃ name values, table.values? rule name = some values

theorem mem_readOptions {table : OptionsTable} {option : RuleOption} :
    option ∈ (readOptions table).options ↔
      table.values? option.rule option.name = some option.values := by
  unfold readOptions values?
  rw [List.mem_flatMap]
  constructor
  · intro h
    obtain ⟨⟨rule, options⟩, hrule, hoption⟩ := h
    obtain ⟨⟨name, values⟩, hname, rfl⟩ := List.mem_map.mp hoption
    rw [Std.TreeMap.mem_toList_iff_getElem?_eq_some] at hrule hname
    exact Option.bind_eq_some_iff.mpr ⟨options, hrule, hname⟩
  · intro h
    obtain ⟨options, hrule, hname⟩ := Option.bind_eq_some_iff.mp h
    refine ⟨(option.rule, options), Std.TreeMap.mem_toList_iff_getElem?_eq_some.mpr hrule, ?_⟩
    refine List.mem_map.mpr ⟨(option.name, option.values), ?_, rfl⟩
    exact Std.TreeMap.mem_toList_iff_getElem?_eq_some.mpr hname

/-- Whatever entry of a key is found first, it holds what the table sets. -/
theorem names_eq_some {table : OptionsTable} {rules : List RuleId} {rule : RuleId} {name : String}
    {values : List String} :
    ((readOptions table).forRules rules).names rule name = some values ↔
      rule ∈ rules ∧ table.values? rule.asStr name = some values := by
  unfold RuleOptions.names
  rw [Option.map_eq_some_iff]
  constructor
  · intro h
    obtain ⟨option, hfind, rfl⟩ := h
    have hkey := List.find?_some hfind
    simp only [Bool.and_eq_true, decide_eq_true_eq] at hkey
    obtain ⟨hrule, hname⟩ := hkey
    obtain ⟨hmem, declared, hdeclared, hsame⟩ :=
      (RuleOptions.mem_forRules _ _ _).mp (List.mem_of_find?_eq_some hfind)
    have hset := mem_readOptions.mp hmem
    rw [hrule, hname] at hset
    have hrules : declared = rule := congrArg RuleId.mk (hsame.trans hrule)
    exact ⟨hrules ▸ hdeclared, hset⟩
  · intro h
    obtain ⟨hrule, hset⟩ := h
    have hmem : (⟨rule.asStr, name, values⟩ : RuleOption) ∈
        ((readOptions table).forRules rules).options :=
      (RuleOptions.mem_forRules _ _ _).mpr ⟨mem_readOptions.mpr hset, rule, hrule, rfl⟩
    have hsome : (((readOptions table).forRules rules).options.find? fun candidate =>
        candidate.rule = rule.asStr && candidate.name = name).isSome = true := by
      rw [List.find?_isSome]
      exact ⟨_, hmem, by simp⟩
    obtain ⟨option, hfind⟩ := Option.isSome_iff_exists.mp hsome
    have hkey := List.find?_some hfind
    simp only [Bool.and_eq_true, decide_eq_true_eq] at hkey
    have hfound := mem_readOptions.mp
      ((RuleOptions.mem_forRules _ _ _).mp (List.mem_of_find?_eq_some hfind)).1
    rw [hkey.1, hkey.2, hset, Option.some.injEq] at hfound
    exact ⟨option, hfind, hfound.symm⟩

theorem names_readOptions (table : OptionsTable) (rules : List RuleId) (rule : RuleId)
    (name : String) : ((readOptions table).forRules rules).names rule name =
      if rule ∈ rules then table.values? rule.asStr name else none := by
  apply Option.ext
  intro values
  rw [names_eq_some]
  by_cases hrule : rule ∈ rules <;> simp [hrule]

theorem mem_unknown_readOptions {table : OptionsTable} {declared : Finset String} {rule : String} :
    rule ∈ (readOptions table).unknown declared ↔ table.Configures rule ∧ rule ∉ declared := by
  rw [RuleOptions.mem_unknown]
  refine and_congr_left fun _ => ?_
  constructor
  · intro h
    obtain ⟨option, hoption, rfl⟩ := h
    exact ⟨option.name, option.values, mem_readOptions.mp hoption⟩
  · intro h
    obtain ⟨name, values, hset⟩ := h
    exact ⟨⟨rule, name, values⟩, mem_readOptions.mpr hset, rfl⟩

/-- A pass of some rules reads of the table what it sets for these rules, with the values in order,
    and a table is accepted if every rule it configures is declared. A refusal names the others. -/
theorem readOptions_routes (table : OptionsTable) :
    (∀ (rules : List RuleId) (rule : RuleId) (name : String),
      ((readOptions table).forRules rules).names rule name =
        if rule ∈ rules then table.values? rule.asStr name else none) ∧
    ∀ declared : Finset String,
      ((readOptions table).validate declared = .ok () ↔
        ∀ rule, table.Configures rule → rule ∈ declared) ∧
      ∀ e, (readOptions table).validate declared = .error e →
        ∃ unknown : Finset String, e = .UnknownRules unknown declared ∧
          ∀ rule, rule ∈ unknown ↔ table.Configures rule ∧ rule ∉ declared := by
  refine ⟨names_readOptions table, fun declared => ⟨?_, ?_⟩⟩
  · rw [RuleOptions.validate_ok_iff]
    constructor
    · intro hall rule hconfigures
      obtain ⟨name, values, hset⟩ := hconfigures
      exact hall ⟨rule, name, values⟩ (mem_readOptions.mpr hset)
    · intro hall option hoption
      exact hall option.rule ⟨option.name, option.values, mem_readOptions.mp hoption⟩
  · intro e he
    unfold RuleOptions.validate at he
    split at he
    · cases he
    · exact ⟨_, (Except.error.inj he).symm, fun rule => mem_unknown_readOptions⟩

/-- A list that is empty is not one that is absent, and a rule that is not asked for reads
    nothing. -/
example :
    let table : OptionsTable :=
      Std.TreeMap.ofList [("lint.a", Std.TreeMap.ofList [("allow", ([] : List String))])]
    let options := (readOptions table).forRules [⟨"lint.a"⟩]
    options.names ⟨"lint.a"⟩ "allow" = some [] ∧ options.names ⟨"lint.a"⟩ "deny" = none ∧
      options.names ⟨"lint.b"⟩ "allow" = none := by
  decide

end OptionsTable

end Stiles
