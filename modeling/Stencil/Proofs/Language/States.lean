import Stencil.Language.Production
import Stencil.Proofs.Grammar.Outlined

namespace Stencil

-- The grammar of the template language in outline. Symbols go by the numbers of their kinds, and
-- the kernels stand in the order in which their states are met.
def templateOutline : Outline where
  corners := #[
    [0, 1, 2], [1, 2], [2], [3, 4, 5, 6, 7, 8, 9, 10, 11, 12, 13, 14, 15, 16, 17, 18, 19, 20, 21,
    22, 23, 24, 26, 28], [4], [4, 5], [6], [7], [7, 8], [7, 8, 9], [10, 11, 12, 13, 14, 15, 16, 17,
    18, 19, 20, 21, 22, 23, 24, 26, 28], [11, 12, 13, 14, 15, 16, 17, 18, 19, 20, 21, 22, 23, 24,
    26, 28], [12, 13, 14, 15, 16, 17, 18, 19, 20, 21, 22, 23, 24, 26, 28], [13, 14, 15, 16, 17, 18,
    19, 20, 21, 22, 23, 24, 26, 28], [14, 15, 16, 17, 18, 19, 20, 21, 22, 23, 24, 26, 28], [15, 16,
    17, 18, 19, 20, 21, 22, 23, 24, 26, 28], [16, 17, 18, 19, 20, 21, 22, 23, 24, 26, 28], [17, 18,
    19, 20, 21, 22, 23, 24, 26, 28], [18, 19, 20, 21, 22, 23, 24, 26, 28], [19, 20, 21, 22, 23, 24,
    26, 28], [20, 21, 22, 23, 24, 26, 28], [21, 22, 23, 24, 26, 28], [22, 23, 24, 26, 28], [23, 24,
    26, 28], [24, 26, 28], [10, 11, 12, 13, 14, 15, 16, 17, 18, 19, 20, 21, 22, 23, 24, 25, 26,
    28], [26], [27], [26, 28]]
  first := {
    nullable := #[
      false, true, true, false, false, false, false, false, false, false, false, false, false,
      false, false, false, false, false, false, false, false, false, false, false, false, false,
      false, false, false]
    first := #[
      [0, 1, 2, 3, 4, 5, 6, 7, 8, 9, 10, 11, 13, 15, 16, 17, 18, 19, 24, 26, 28, 46, 50, 51], [1,
      2, 3, 4, 5, 6, 7, 8, 9, 10, 11, 13, 15, 16, 17, 18, 19, 24, 26, 28, 46, 50, 51], [1, 2, 3, 4,
      5, 6, 7, 8, 9, 10, 11, 13, 15, 16, 17, 18, 19, 24, 26, 28, 46, 50, 51], [1, 2, 3, 4, 5, 6, 7,
      8, 9, 10, 11, 13, 15, 16, 17, 18, 19, 24, 26, 28, 46, 50, 51], [28], [28], [11], [3, 13], [3,
      13], [3, 13], [3, 4, 5, 6, 7, 8, 9, 13, 15, 24, 26, 46, 50, 51], [3, 4, 5, 6, 7, 8, 9, 13,
      15, 24, 26, 46, 50, 51], [3, 4, 5, 6, 7, 8, 9, 13, 15, 24, 26, 46, 50, 51], [3, 4, 5, 6, 7,
      8, 9, 13, 15, 24, 26, 46, 50, 51], [3, 4, 5, 6, 7, 8, 9, 13, 15, 24, 26, 46, 50, 51], [3, 4,
      5, 6, 7, 8, 9, 13, 15, 24, 26, 46, 50, 51], [3, 4, 5, 6, 7, 8, 9, 13, 15, 24, 26, 46, 50,
      51], [3, 4, 5, 6, 7, 8, 9, 13, 15, 24, 26, 46, 50, 51], [3, 4, 5, 6, 7, 8, 9, 13, 15, 24, 26,
      46, 50, 51], [3, 4, 5, 6, 7, 8, 9, 13, 15, 24, 26, 46, 50, 51], [3, 4, 5, 6, 7, 8, 9, 13, 15,
      24, 26, 46, 50, 51], [3, 4, 5, 6, 7, 8, 9, 13, 15, 24, 26, 46, 50, 51], [3, 4, 5, 6, 7, 8, 9,
      13, 15, 24, 26, 46, 50, 51], [3, 4, 5, 6, 7, 8, 9, 13, 15, 24, 26], [3, 4, 5, 6, 7, 8, 9, 13,
      15, 24, 26], [3, 4, 5, 6, 7, 8, 9, 13, 15, 24, 26, 46, 50, 51], [15], [3], [15]] }
  follow := #[
    [0], [0], [0, 1, 2, 3, 4, 5, 6, 7, 8, 9, 10, 11, 13, 15, 16, 17, 18, 19, 24, 26, 28, 29, 46,
    50, 51], [0, 1, 2, 3, 4, 5, 6, 7, 8, 9, 10, 11, 13, 15, 16, 17, 18, 19, 24, 26, 28, 29, 46, 50,
    51], [1, 2, 3, 4, 5, 6, 7, 8, 9, 10, 11, 13, 15, 16, 17, 18, 19, 24, 26, 28, 29, 46, 50, 51],
    [0, 1, 2, 3, 4, 5, 6, 7, 8, 9, 10, 11, 12, 13, 14, 15, 16, 17, 18, 19, 20, 21, 22, 24, 25, 26,
    27, 28, 29, 31, 32, 33, 34, 35, 36, 37, 38, 39, 40, 41, 42, 43, 44, 45, 46, 47, 48, 49, 50,
    51], [0, 1, 2, 3, 4, 5, 6, 7, 8, 9, 10, 11, 13, 15, 16, 17, 18, 19, 24, 26, 28, 29, 46, 50,
    51], [28], [0, 1, 2, 3, 4, 5, 6, 7, 8, 9, 10, 11, 12, 13, 15, 16, 17, 18, 19, 24, 26, 28, 29,
    46, 50, 51], [0, 1, 2, 3, 4, 5, 6, 7, 8, 9, 10, 11, 13, 15, 16, 17, 18, 19, 24, 26, 28, 29, 46,
    50, 51], [14, 19, 20, 25, 27, 29], [14, 19, 20, 25, 27, 29, 31], [14, 19, 20, 25, 27, 29, 31,
    32], [14, 19, 20, 25, 27, 29, 31, 32, 33], [14, 19, 20, 25, 27, 29, 31, 32, 33, 34], [14, 19,
    20, 25, 27, 29, 31, 32, 33, 34, 35], [14, 19, 20, 25, 27, 29, 31, 32, 33, 34, 35, 36, 37], [14,
    19, 20, 25, 27, 29, 31, 32, 33, 34, 35, 36, 37, 38, 39, 40, 41], [14, 19, 20, 25, 27, 29, 31,
    32, 33, 34, 35, 36, 37, 38, 39, 40, 41, 42, 43, 44], [14, 19, 20, 25, 27, 29, 31, 32, 33, 34,
    35, 36, 37, 38, 39, 40, 41, 42, 43, 44], [14, 19, 20, 22, 25, 27, 29, 31, 32, 33, 34, 35, 36,
    37, 38, 39, 40, 41, 42, 43, 44, 45, 46], [14, 19, 20, 22, 25, 27, 29, 31, 32, 33, 34, 35, 36,
    37, 38, 39, 40, 41, 42, 43, 44, 45, 46, 47, 48, 49], [14, 19, 20, 22, 25, 27, 29, 31, 32, 33,
    34, 35, 36, 37, 38, 39, 40, 41, 42, 43, 44, 45, 46, 47, 48, 49], [14, 19, 20, 21, 22, 24, 25,
    26, 27, 29, 31, 32, 33, 34, 35, 36, 37, 38, 39, 40, 41, 42, 43, 44, 45, 46, 47, 48, 49], [14,
    19, 20, 21, 22, 24, 25, 26, 27, 29, 31, 32, 33, 34, 35, 36, 37, 38, 39, 40, 41, 42, 43, 44, 45,
    46, 47, 48, 49], [20, 25, 27], [28], [20, 25], [14, 19, 20, 21, 22, 24, 25, 26, 27, 29, 31, 32,
    33, 34, 35, 36, 37, 38, 39, 40, 41, 42, 43, 44, 45, 46, 47, 48, 49]]
  kernels := [
    [⟨0, 0⟩], [⟨0, 1⟩], [⟨1, 1⟩, ⟨3, 1⟩], [⟨0, 2⟩], [⟨4, 1⟩], [⟨5, 1⟩],
    [⟨10, 1⟩, ⟨29, 1⟩, ⟨30, 1⟩, ⟨77, 1⟩], [⟨78, 1⟩], [⟨79, 1⟩], [⟨80, 1⟩], [⟨81, 1⟩], [⟨82, 1⟩],
    [⟨83, 1⟩], [⟨8, 1⟩, ⟨9, 1⟩], [⟨24, 1⟩, ⟨25, 1⟩, ⟨26, 1⟩], [⟨27, 1⟩, ⟨28, 1⟩, ⟨87, 1⟩],
    [⟨89, 1⟩, ⟨90, 1⟩], [⟨16, 1⟩, ⟨17, 1⟩], [⟨18, 1⟩, ⟨19, 1⟩], [⟨20, 1⟩, ⟨21, 1⟩], [⟨6, 1⟩],
    [⟨84, 1⟩], [⟨85, 1⟩, ⟨86, 1⟩], [⟨22, 1⟩], [⟨66, 1⟩], [⟨67, 1⟩], [⟨68, 1⟩], [⟨3, 2⟩], [⟨23, 1⟩],
    [⟨13, 1⟩], [⟨14, 1⟩], [⟨31, 1⟩], [⟨32, 1⟩, ⟨33, 1⟩], [⟨15, 1⟩], [⟨7, 1⟩], [⟨34, 1⟩, ⟨35, 1⟩],
    [⟨36, 1⟩, ⟨37, 1⟩], [⟨38, 1⟩, ⟨39, 1⟩], [⟨40, 1⟩, ⟨41, 1⟩], [⟨42, 1⟩, ⟨43, 1⟩],
    [⟨44, 1⟩, ⟨45, 1⟩, ⟨46, 1⟩], [⟨47, 1⟩, ⟨48, 1⟩, ⟨49, 1⟩, ⟨50, 1⟩, ⟨51, 1⟩],
    [⟨52, 1⟩, ⟨53, 1⟩, ⟨54, 1⟩, ⟨55, 1⟩], [⟨56, 1⟩], [⟨57, 1⟩, ⟨58, 1⟩, ⟨59, 1⟩, ⟨60, 1⟩],
    [⟨61, 1⟩, ⟨62, 1⟩, ⟨63, 1⟩, ⟨64, 1⟩], [⟨65, 1⟩],
    [⟨11, 1⟩, ⟨12, 1⟩, ⟨69, 1⟩, ⟨71, 1⟩, ⟨72, 1⟩, ⟨73, 1⟩, ⟨74, 1⟩], [⟨70, 1⟩], [⟨93, 1⟩],
    [⟨88, 1⟩], [⟨77, 1⟩], [⟨87, 1⟩], [⟨5, 2⟩], [⟨69, 1⟩, ⟨71, 1⟩, ⟨72, 1⟩, ⟨73, 1⟩, ⟨74, 1⟩],
    [⟨29, 2⟩, ⟨30, 2⟩], [⟨10, 2⟩], [⟨8, 2⟩, ⟨9, 2⟩], [⟨24, 2⟩, ⟨25, 2⟩, ⟨26, 2⟩], [⟨87, 2⟩],
    [⟨27, 2⟩, ⟨28, 2⟩], [⟨89, 2⟩, ⟨90, 2⟩], [⟨16, 2⟩], [⟨17, 2⟩], [⟨19, 2⟩], [⟨18, 2⟩], [⟨21, 2⟩],
    [⟨20, 2⟩], [⟨84, 2⟩], [⟨85, 2⟩], [⟨75, 1⟩], [⟨76, 1⟩, ⟨86, 2⟩], [⟨66, 2⟩], [⟨67, 2⟩], [⟨68, 2⟩],
    [⟨3, 1⟩, ⟨23, 2⟩], [⟨31, 2⟩], [⟨33, 2⟩], [⟨7, 2⟩], [⟨35, 2⟩], [⟨37, 2⟩], [⟨39, 2⟩], [⟨41, 2⟩],
    [⟨43, 2⟩], [⟨45, 2⟩], [⟨46, 2⟩], [⟨48, 2⟩], [⟨49, 2⟩], [⟨50, 2⟩], [⟨51, 2⟩], [⟨53, 2⟩],
    [⟨54, 2⟩], [⟨55, 2⟩], [⟨57, 2⟩], [⟨59, 2⟩], [⟨60, 2⟩], [⟨62, 2⟩], [⟨63, 2⟩], [⟨64, 2⟩],
    [⟨11, 2⟩, ⟨71, 2⟩], [⟨73, 2⟩, ⟨74, 2⟩], [⟨12, 2⟩, ⟨72, 2⟩], [⟨93, 2⟩], [⟨5, 3⟩], [⟨71, 2⟩],
    [⟨72, 2⟩], [⟨29, 3⟩, ⟨30, 3⟩], [⟨10, 3⟩], [⟨8, 3⟩], [⟨9, 3⟩], [⟨24, 3⟩, ⟨25, 3⟩, ⟨26, 3⟩],
    [⟨87, 3⟩], [⟨27, 3⟩, ⟨28, 3⟩], [⟨91, 1⟩], [⟨89, 3⟩], [⟨90, 3⟩, ⟨92, 1⟩], [⟨17, 3⟩], [⟨19, 3⟩],
    [⟨21, 3⟩], [⟨84, 3⟩], [⟨76, 2⟩], [⟨86, 3⟩], [⟨23, 3⟩], [⟨33, 3⟩], [⟨35, 3⟩, ⟨37, 1⟩],
    [⟨37, 3⟩, ⟨39, 1⟩], [⟨39, 3⟩, ⟨41, 1⟩], [⟨41, 3⟩, ⟨43, 1⟩], [⟨43, 3⟩, ⟨45, 1⟩, ⟨46, 1⟩],
    [⟨45, 3⟩, ⟨48, 1⟩, ⟨49, 1⟩, ⟨50, 1⟩, ⟨51, 1⟩], [⟨46, 3⟩, ⟨48, 1⟩, ⟨49, 1⟩, ⟨50, 1⟩, ⟨51, 1⟩],
    [⟨48, 3⟩, ⟨53, 1⟩, ⟨54, 1⟩, ⟨55, 1⟩], [⟨49, 3⟩, ⟨53, 1⟩, ⟨54, 1⟩, ⟨55, 1⟩],
    [⟨50, 3⟩, ⟨53, 1⟩, ⟨54, 1⟩, ⟨55, 1⟩], [⟨51, 3⟩, ⟨53, 1⟩, ⟨54, 1⟩, ⟨55, 1⟩], [⟨53, 3⟩],
    [⟨54, 3⟩], [⟨55, 3⟩], [⟨57, 3⟩, ⟨59, 1⟩, ⟨60, 1⟩], [⟨59, 3⟩, ⟨62, 1⟩, ⟨63, 1⟩, ⟨64, 1⟩],
    [⟨60, 3⟩, ⟨62, 1⟩, ⟨63, 1⟩, ⟨64, 1⟩], [⟨62, 3⟩], [⟨63, 3⟩], [⟨64, 3⟩], [⟨11, 3⟩, ⟨71, 3⟩],
    [⟨73, 3⟩], [⟨74, 3⟩, ⟨76, 1⟩], [⟨12, 3⟩, ⟨72, 3⟩], [⟨71, 3⟩], [⟨72, 3⟩], [⟨29, 4⟩, ⟨30, 4⟩],
    [⟨10, 4⟩], [⟨9, 4⟩], [⟨24, 4⟩, ⟨25, 4⟩, ⟨26, 4⟩], [⟨27, 4⟩, ⟨28, 4⟩], [⟨92, 2⟩], [⟨90, 4⟩],
    [⟨76, 3⟩], [⟨11, 4⟩], [⟨74, 4⟩], [⟨12, 4⟩, ⟨72, 4⟩], [⟨72, 4⟩], [⟨29, 5⟩, ⟨30, 5⟩], [⟨9, 5⟩],
    [⟨24, 5⟩, ⟨25, 5⟩, ⟨26, 5⟩], [⟨27, 5⟩, ⟨28, 5⟩], [⟨92, 3⟩], [⟨11, 5⟩], [⟨12, 5⟩],
    [⟨29, 6⟩, ⟨30, 6⟩], [⟨25, 6⟩, ⟨26, 6⟩], [⟨28, 6⟩], [⟨27, 6⟩], [⟨11, 6⟩], [⟨12, 6⟩],
    [⟨29, 7⟩, ⟨30, 7⟩], [⟨25, 7⟩], [⟨26, 7⟩], [⟨28, 7⟩], [⟨12, 7⟩], [⟨30, 8⟩], [⟨29, 8⟩], [⟨28, 8⟩],
    [⟨30, 9⟩], [⟨30, 10⟩]]

theorem templateOutline_holds : templateOutline.Holds templateGrammar where
  valid := by decide +kernel
  corners := by decide +kernel
  first := by decide +kernel
  follow := by decide +kernel
  start := by decide +kernel
  states := by decide +kernel
  fits := by decide +kernel

-- So the tables of the template language are made, without a conflict.
theorem templateGrammar_compiles : templateGrammar.compile = .ok (templateTables, []) := by
  obtain ⟨tables, htables⟩ := templateOutline_holds.compile_ok
  rw [templateTables, Grammar.tables, htables]

end Stencil
