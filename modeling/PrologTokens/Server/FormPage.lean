/-!
# The form page

The page at which a source can be typed in and sent to the server.
-/

set_option autoImplicit false

namespace PrologTokens.Server.FormPage

/-- The lines of the page. -/
def lines : List String :=
  ["<!DOCTYPE html>",
    "<html lang=\"en\">",
    "<head>",
    "    <meta charset=\"UTF-8\">",
    "    <meta name=\"viewport\" content=\"width=device-width, initial-scale=1.0\">",
    "    <title>Prolog Lexical Analysis</title>",
    "    <style>",
    "        body \x7b",
    "            font-family: 'Segoe UI', Tahoma, Geneva, Verdana, sans-serif;",
    "            margin: 20px;",
    "            background-color: #f8f9fa;",
    "        \x7d",
    "",
    "        h1, h2 \x7b",
    "            color: #007bff;",
    "        \x7d",
    "",
    "        h1 \x7b",
    "            text-align: center;",
    "        \x7d",
    "",
    "        textarea \x7b",
    "            width: 100%;",
    "            height: 150px;",
    "            font-size: 16px;",
    "            font-family: monospace;",
    "            padding: 10px;",
    "            margin: 10px 0 20px;",
    "            border: 1px solid #ced4da;",
    "            border-radius: 4px;",
    "            box-sizing: border-box;",
    "        \x7d",
    "",
    "        button \x7b",
    "            padding: 10px;",
    "            font-size: 16px;",
    "            cursor: pointer;",
    "            background-color: #007bff;",
    "            color: #fff;",
    "            border: none;",
    "            border-radius: 4px;",
    "        \x7d",
    "",
    "        button:hover \x7b",
    "            background-color: #0056b3;",
    "        \x7d",
    "",
    "        #result \x7b",
    "            margin-top: 20px;",
    "            background-color: #fff;",
    "            padding: 20px;",
    "            border-radius: 4px;",
    "            box-shadow: 0 2px 4px rgba(0, 0, 0, 0.1);",
    "        \x7d",
    "",
    "        table \x7b",
    "            border-collapse: collapse;",
    "        \x7d",
    "",
    "        td, th \x7b",
    "            padding: 4px 12px;",
    "            text-align: left;",
    "            border-bottom: 1px solid #e9ecef;",
    "        \x7d",
    "",
    "        .error \x7b",
    "            color: red;",
    "        \x7d",
    "    </style>",
    "</head>",
    "<body>",
    "    <h1>Lexical Analysis of Prolog Source</h1>",
    "",
    "    <label for=\"code\">Prolog source:</label>",
    "    <textarea id=\"code\" placeholder=\"padre(juan,maria).\"></textarea>",
    "",
    "    <button id=\"analyze\">Analyze</button>",
    "",
    "    <div id=\"result\"></div>",
    "",
    "    <script>",
    "        const result = document.getElementById('result');",
    "",
    "        function heading(text) \x7b",
    "            const h2 = document.createElement('h2');",
    "            h2.textContent = text;",
    "            return h2;",
    "        \x7d",
    "",
    "        function showTokens(tokens) \x7b",
    "            result.replaceChildren(heading('Tokens'));",
    "            const table = document.createElement('table');",
    "            const header = table.insertRow();",
    "            for (const name of ['Line', 'Category', 'Lexeme']) \x7b",
    "                const th = document.createElement('th');",
    "                th.textContent = name;",
    "                header.appendChild(th);",
    "            \x7d",
    "            for (const token of tokens) \x7b",
    "                const row = table.insertRow();",
    "                row.insertCell().textContent = token.line;",
    "                row.insertCell().textContent = token.category;",
    "                row.insertCell().textContent = token.lexeme;",
    "            \x7d",
    "            result.appendChild(table);",
    "        \x7d",
    "",
    "        function showError(message) \x7b",
    "            const p = document.createElement('p');",
    "            p.className = 'error';",
    "            p.textContent = message;",
    "            result.replaceChildren(heading('Error'), p);",
    "        \x7d",
    "",
    "        document.getElementById('analyze').addEventListener('click', async () => \x7b",
    "            const code = document.getElementById('code').value;",
    "            try \x7b",
    "                const response = await fetch('/', \x7b",
    "                    method: 'POST',",
    "                    headers: \x7b 'Content-Type': 'application/json' \x7d,",
    "                    body: JSON.stringify(\x7b code \x7d),",
    "                \x7d);",
    "                const data = await response.json();",
    "                if (response.ok) \x7b",
    "                    showTokens(data);",
    "                \x7d else \x7b",
    "                    showError(data.error);",
    "                \x7d",
    "            \x7d catch (error) \x7b",
    "                showError(String(error));",
    "            \x7d",
    "        \x7d);",
    "    </script>",
    "</body>",
    "</html>"]

/-- The page. -/
def html : String := String.join (lines.map fun line => line ++ "\n")

end PrologTokens.Server.FormPage
