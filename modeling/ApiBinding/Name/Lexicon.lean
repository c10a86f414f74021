import ApiBinding.Text.Class

/-! Spelling of ideographs in letters. A phrase may read differently from its characters, so
the longest phrase at each place is taken before single characters. -/

namespace ApiBinding.Name

structure Lexicon where
  /-- The letters of single ideographs. -/
  reading? : Char → Option String
  /-- Phrases and their letters. -/
  phrases : List (List Char × String)

namespace Lexicon

/-- The longest phrase that the text begins with. -/
def phraseAt? (lexicon : Lexicon) (text : List Char) : Option (List Char × String) :=
  (lexicon.phrases.filter fun entry => !entry.1.isEmpty && entry.1.isPrefixOf text).foldl
    (fun best entry =>
      match best with
      | some longest => if longest.1.length < entry.1.length then some entry else best
      | none => some entry)
    none

/-- Spells a text of which `skip` characters are already spelled by a phrase. A character
without a reading stays as it is. -/
def spellFrom (lexicon : Lexicon) (skip : Nat) : List Char → List Char
  | [] => []
  | c :: rest =>
    match skip with
    | skip + 1 => spellFrom lexicon skip rest
    | 0 =>
      match lexicon.phraseAt? (c :: rest) with
      | some (phrase, letters) => letters.toList ++ spellFrom lexicon (phrase.length - 1) rest
      | none =>
        match lexicon.reading? c with
        | some letters => letters.toList ++ spellFrom lexicon 0 rest
        | none => c :: spellFrom lexicon 0 rest

def spell (lexicon : Lexicon) (text : List Char) : List Char :=
  lexicon.spellFrom 0 text

/-- Common readings in plain letters, with v for the rounded u. -/
def readings : List (Char × String) := [
  ('一', "yi"), ('中', "zhong"), ('乐', "le"), ('分', "fen"), ('列', "lie"), ('单', "dan"),
  ('号', "hao"), ('复', "fu"), ('女', "nv"), ('宠', "chong"), ('度', "du"), ('快', "kuai"),
  ('成', "cheng"), ('户', "hu"), ('据', "ju"), ('数', "shu"), ('文', "wen"), ('日', "ri"),
  ('果', "guo"), ('查', "cha"), ('物', "wu"), ('用', "yong"), ('结', "jie"), ('绿', "lv"),
  ('编', "bian"), ('色', "se"), ('行', "xing"), ('表', "biao"), ('要', "yao"), ('订', "ding"),
  ('询', "xun"), ('走', "zou"), ('重', "zhong"), ('银', "yin"), ('长', "zhang"), ('音', "yin"),
  ('页', "ye"), ('龥', "yu")]

def standard : Lexicon where
  reading? c := readings.lookup c
  phrases := [
    (['重', '复'], "chongfu"), (['银', '行'], "yinhang"), (['长', '度'], "changdu"),
    (['音', '乐'], "yinyue")]

end Lexicon

end ApiBinding.Name
