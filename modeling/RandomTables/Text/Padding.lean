namespace RandomTables.Text

def padLeft (fill : Char) (width : Nat) (s : String) : String :=
  String.ofList (s.toList.leftpad width fill)

def padRight (fill : Char) (width : Nat) (s : String) : String :=
  String.ofList (s.toList.rightpad width fill)

def repeated (n : Nat) (c : Char) : String :=
  String.ofList (List.replicate n c)

end RandomTables.Text
