import Mathlib.Data.List.Basic
import WireTypes.Proofs.Options.Groups

/-!
# Where the output goes

The output goes to the last file that is named behind `-o` (`output_of_parse`): no other argument
says anything of it.
-/

namespace WireTypes.Options

/-- The names behind `-o`, in order. -/
def outputs : List String → List String
  | [] => []
  | "-o" :: path :: rest => path :: outputs rest
  | _ :: rest => outputs rest

theorem outputs_single {argument : String} (h : argument ≠ "-o") (rest : List String) :
    outputs (argument :: rest) = outputs rest := by
  rw [outputs]
  exact fun _ _ hdash => absurd hdash h

theorem field_ne_output {argument : String} {s : Setting} (h : (Group.single argument).Sets s) :
    s.field ≠ .output := by
  intro hfield
  cases h <;> cases hfield

theorem filter_settings_output (arguments : List String) :
    (settings (groups arguments)).filter
      (fun s => s.field = .output) = (outputs arguments).map .output := by
  fun_induction groups arguments with
  | case1 => rfl
  | case2 => rfl
  | case3 path rest ih =>
    rw [outputs, List.map_cons, ← ih]
    rfl
  | case4 argument rest hlast hout ih =>
    rw [outputs_single (ne_dash hlast hout), ← ih]
    unfold settings
    cases hs : (Group.single argument).setting? with
    | none => rw [List.filterMap_cons_none hs]
    | some s =>
      have hfield := field_ne_output (Group.setting?_eq_some_iff.mp hs)
      rw [List.filterMap_cons_some hs, List.filter_cons_of_neg (by simpa using hfield)]

theorem output_of_parse {arguments : List String} {o : Options} (h : parse arguments = .ok o) :
    o.output = (outputs arguments).getLast? := by
  have hcurrent : o.output.map Setting.output =
      (draft (groups arguments)).output.map Setting.output :=
    (finish_eq_ok_iff.mp (parse_eq_ok_iff.mp h).2).2 .output
  have hlast : (draft (groups arguments)).output.map Setting.output =
      (lastSetting? .output (settings (groups arguments))).or none :=
    current_draft (groups arguments) .output
  have hinj : Function.Injective Setting.output := fun _ _ => Setting.output.inj
  rw [hlast, Option.or_none, lastSetting?, filter_settings_output, List.getLast?_map] at hcurrent
  exact Option.map_injective hinj hcurrent

end WireTypes.Options
