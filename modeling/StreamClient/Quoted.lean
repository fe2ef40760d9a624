/-! Text in quotes, with quotes and backslashes escaped. -/

namespace StreamClient.Quoted

def escape : Char → List Char
  | '"' => ['\\', '"']
  | '\\' => ['\\', '\\']
  | c => [c]

def text (s : String) : String := "\"" ++ String.ofList (s.toList.flatMap escape) ++ "\""

def list (l : List String) : String := "[" ++ String.intercalate ", " (l.map text) ++ "]"

end StreamClient.Quoted
